import ObjectiveJ.Generate.Check
import ObjectiveJ.Proofs.Law.Agree
import ObjectiveJ.Proofs.Layout.Shift
import ObjectiveJ.Proofs.Run

/-!
# What frames remember

A frame remembers where `self.` has been written before the name of an instance variable. The states
here keep that exact (`GenState.Retractable`): while code is added (`GenState.Goes`), when a
declaration takes a `self.` back (`GenState.Hides`), and when a frame inside of another one ends
(`GenState.Goes.leave`).
-/

namespace ObjectiveJ

open Gen

/-! ### What frames remember -/

namespace Frames

/-- The references that a frame remembers, each with its name. -/
def refs (fs : Frames) (id : FrameId) : List (Key × IvarRef) :=
  ((fs.frame? id).map (·.ivarRefs.entries.entries)).getD [] |>.flatMap fun e => e.2.2.map (e.1, ·)

/-- The frame around a frame, if there are such frames. -/
def link (fs : Frames) (id : FrameId) : Option (Option FrameId) := (fs.frame? id).map (·.parent)

variable {fs : Frames} {id i : FrameId} {key : Key} {p : Key × IvarRef}

theorem mem_refs {f : Frame} (hf : fs.frame? id = some f) :
    p ∈ fs.refs id ↔ ∃ e ∈ f.ivarRefs.entries.entries, p.2 ∈ e.2.2 ∧ e.1 = p.1 := by
  simp [refs, hf, Prod.ext_iff]

theorem link_modify {g : Frame → Frame} (hg : ∀ f, (g f).parent = f.parent) :
    (fs.modify id g).link = fs.link := by
  funext i
  rw [link, frame?_modify, link]
  split
  · simp [Function.comp_def, hg]
  · rfl

theorem refs_modify {g : Frame → Frame} (hg : ∀ f, (g f).ivarRefs = f.ivarRefs) :
    (fs.modify id g).refs = fs.refs := by
  funext i
  rw [refs, frame?_modify, refs]
  split
  · simp [Function.comp_def, hg]
  · rfl

theorem mem_refs_of_mem (h : p.2 ∈ fs.ivarRefs id p.1) : p ∈ fs.refs id := by
  cases hf : fs.frame? id with
  | none => simp [ivarRefs, hf] at h
  | some f =>
    cases hrefs : f.ivarRefs.entries.get? p.1 with
    | none => simp [ivarRefs, hf, NameTable.get?, hrefs] at h
    | some rs =>
      have hr : p.2 ∈ rs.2 := by simpa [ivarRefs, hf, NameTable.get?, hrefs] using h
      exact (mem_refs hf).2 ⟨_, Table.mem_of_lookup hrefs, hr, rfl⟩

/-- A frame among others is changed. -/
theorem mem_refs_modify {g : Frame → Frame} {P : Prop} (h : p ∈ (fs.modify id g).refs i)
    (hg : ∀ f, id = i → fs.frame? i = some f → ∀ e ∈ (g f).ivarRefs.entries.entries, e.1 = p.1 →
      p.2 ∈ e.2.2 → P)
    (hi : id ≠ i → p ∈ fs.refs i → P) : P := by
  by_cases hid : id = i
  · cases hf : fs.frame? i with
    | none => simp [refs, frame?_modify, hf] at h
    | some f =>
      have hmod : (fs.modify id g).frame? i = some (g f) := by
        rw [frame?_modify, if_pos hid, hf]
        rfl
      obtain ⟨e, he, hr, hkey⟩ := (mem_refs hmod).1 h
      exact hg f hid hf e he hkey hr
  · rw [refs, frame?_modify, if_neg hid] at h
    exact hi hid h

theorem mem_refs_addIvarRefs {name : Value} {rs : List IvarRef}
    (h : p ∈ (fs.addIvarRefs id key name rs).refs i) :
    p ∈ fs.refs i ∨ i = id ∧ p.1 = key ∧ p.2 ∈ rs := by
  refine mem_refs_modify h (fun f hid hf e he hkey hr => ?_) fun _ => .inl
  rcases Table.mem_setEntry he with he | rfl
  · exact .inl ((mem_refs hf).2 ⟨e, he, hr, hkey⟩)
  obtain rfl : key = p.1 := hkey
  rcases List.mem_append.1 hr with hr | hr
  · exact .inl (mem_refs_of_mem (by simpa [ivarRefs, hf] using hr))
  · exact .inr ⟨hid.symm, rfl, hr⟩

theorem mem_refs_copyIvarRefs (h : p ∈ (fs.copyIvarRefs id).refs i) :
    p ∈ fs.refs i ∨ fs.link id = some (some i) ∧ p ∈ fs.refs id := by
  refine copyIvarRefs_induction (P := fun gs => p ∈ gs.refs i → _) .inl
    (fun gs f up e hf hup he ih h => ?_) h
  rcases mem_refs_addIvarRefs h with h | ⟨rfl, hkey, hr⟩
  · exact ih h
  · exact .inr ⟨by rw [link, hf, Option.map_some, hup], (mem_refs hf).2 ⟨e, he, hr, hkey.symm⟩⟩

theorem mem_refs_dropIvarRefs (h : p ∈ (fs.dropIvarRefs id key).refs i) :
    p ∈ fs.refs i ∧ ¬ (i = id ∧ p.1 = key) := by
  refine mem_refs_modify h (fun f hid hf e he hkey hr => ?_) fun hid h => ⟨h, fun h => hid h.1.symm⟩
  obtain ⟨he, hne⟩ := List.mem_filter.1 he
  exact ⟨(mem_refs hf).2 ⟨e, he, hr, hkey⟩, fun h => of_decide_eq_true hne (hkey.trans h.2)⟩

theorem link_new (f : Frame) : (fs.new f).2.link id =
    if id = fs.store.size then some f.parent else fs.link id := by
  rw [link, frame?_new]
  split <;> rfl

theorem refs_new {f : Frame} (hf : f.ivarRefs = {}) : (fs.new f).2.refs = fs.refs := by
  funext id
  rw [refs, frame?_new, refs]
  split
  · rename_i hid
    rw [Option.map_some, hf, hid, frame?, Array.getElem?_eq_none (Nat.le_refl _)]
    rfl
  · rfl

theorem refs_size : fs.refs fs.store.size = [] := by simp [refs, frame?]

theorem link_size : fs.link fs.store.size = none := by simp [link, frame?]

end Frames

/-! ### States -/

namespace GenState

/-- An instruction writes `self.`, and the next one the name after it. -/
def Refers (s : GenState) (key : Key) (i : Nat) : Prop :=
  ∃ buffer name place place', name.key? = some key ∧
    s.trace[i]? = some (.text buffer (.str "self.") place) ∧
    s.trace[i + 1]? = some (.text buffer name place')

/-- Each `self.` that some frames remember stands before a name, and one of the frames remembers it
under that name only. With a frame, that around it is among them. -/
structure Retractable (s : GenState) (S : FrameId → Prop) : Prop where
  around : ∀ id, S id → ∃ up, s.frames.link id = some up ∧ ∀ i, up = some i → S i
  refers : ∀ id, S id → ∀ p ∈ s.frames.refs id, s.Refers p.1 p.2.index
  apart : ∀ id id', S id → S id' → ∀ p ∈ s.frames.refs id, ∀ p' ∈ s.frames.refs id',
    p.2.index ≤ p'.2.index → p'.2.index ≤ p.2.index + 1 →
    id' = id ∧ p'.1 = p.1 ∧ p'.2.index = p.2.index

/-- Code is added, and what has been written before stays but for what some frames remember. They
alone remember more, and that of the new code. -/
structure Goes (S F : FrameId → Prop) (s t : GenState) : Prop where
  retractable : t.Retractable S
  links : ∀ id up, s.frames.link id = some up → t.frames.link id = some up
  stays : ∀ i < s.trace.size, t.trace[i]? = s.trace[i]? ∨
    t.trace[i]? = s.trace[i]?.map Instr.blanked ∧
    ∃ id, S id ∧ F id ∧ ∃ p ∈ s.frames.refs id, p.2.index = i
  gains : ∀ id, S id → ∀ p ∈ t.frames.refs id,
    p ∈ s.frames.refs id ∨ F id ∧ s.trace.size ≤ p.2.index

variable {S F : FrameId → Prop} {s t u : GenState} {f : FrameId}

theorem Goes.lt_size (h : s.Goes S F t) {i : Nat} (hi : i < s.trace.size) : i < t.trace.size := by
  have hstays := h.stays i hi
  grind

theorem blanked_blanked (i : Instr) : i.blanked.blanked = i.blanked := by
  cases i <;> rfl

theorem Goes.trans (h : s.Goes S F t) (h' : t.Goes S F u) : s.Goes S F u where
  retractable := h'.retractable
  links id up hup := h'.links id up (h.links id up hup)
  stays i hi := by
    rcases h'.stays i (h.lt_size hi) with heq | ⟨heq, id, hS, hF, p, hp, rfl⟩
    · rw [heq]
      exact h.stays i hi
    · have hold : p ∈ s.frames.refs id := (h.gains id hS p hp).resolve_right fun h => by omega
      refine .inr ⟨?_, id, hS, hF, p, hold, rfl⟩
      rcases h.stays _ hi with h | ⟨h, _⟩ <;> simp [heq, h, Function.comp_def, blanked_blanked]
  gains id hid p hp := by
    have hlt := h.lt_size (i := p.2.index)
    rcases h'.gains id hid p hp with hp | ⟨hF, hle⟩
    · exact h.gains id hid p hp
    · exact .inr ⟨hF, by omega⟩

theorem Goes.mono {F' : FrameId → Prop} (h : s.Goes S F t) (hF : ∀ id, F id → F' id) :
    s.Goes S F' t :=
  { h with
    stays := fun i hi => (h.stays i hi).imp_right fun ⟨heq, id, hS, hid, hp⟩ =>
      ⟨heq, id, hS, hF id hid, hp⟩
    gains := fun id hid p hp => (h.gains id hid p hp).imp_right fun h => ⟨hF id h.1, h.2⟩ }

/-- Texts are taken back and others are written, and a reference to the first of these may be
remembered. -/
theorem Retractable.goes (hs : s.Retractable S) (f : FrameId) (key : Key) (ns : List Nat)
    (hlinks : t.frames.link = s.frames.link)
    (hns : ∀ n ∈ ns, ∃ id, S id ∧ F id ∧ ∃ p ∈ s.frames.refs id, p.2.index = n)
    (htrace : ∀ i < s.trace.size,
      t.trace[i]? = if i ∈ ns then s.trace[i]?.map Instr.blanked else s.trace[i]?)
    (hrefs : ∀ id, ∀ p ∈ t.frames.refs id,
      p ∈ s.frames.refs id ∧ (S id → p.2.index ∉ ns ∧ p.2.index + 1 ∉ ns) ∨
      (id = f ∧ p.1 = key ∧ p.2.index = s.trace.size) ∧ F id ∧ t.Refers p.1 p.2.index) :
    s.Goes S F t where
  retractable := by
    have hold {id : FrameId} (hid : S id) {p : Key × IvarRef} (hp : p ∈ s.frames.refs id) :
        p.2.index + 1 < s.trace.size := by
      obtain ⟨_, _, _, _, _, _, hnext⟩ := hs.refers id hid p hp
      exact (Array.getElem?_eq_some_iff.1 hnext).1
    refine ⟨hlinks ▸ hs.around, fun id hid p hp => ?_, fun id id' hid hid' p hp p' hp' => ?_⟩
    · rcases hrefs id p hp with ⟨hp, hkept⟩ | ⟨_, _, hp⟩
      · have hlt := hold hid hp
        rw [Refers, htrace _ hlt, htrace _ (by omega), if_neg (hkept hid).1, if_neg (hkept hid).2]
        exact hs.refers id hid p hp
      · exact hp
    · have hapart := hs.apart id id' hid hid' p
      grind
  links _ _ hup := hlinks ▸ hup
  stays i hi := by
    rw [htrace i hi]
    split
    · exact .inr ⟨rfl, hns i ‹_›⟩
    · exact .inl rfl
  gains id _ p hp := (hrefs id p hp).imp And.left fun ⟨h, hF, _⟩ => ⟨hF, Nat.le_of_eq h.2.2.symm⟩

/-- Texts are taken back, and references are forgotten. -/
structure Takes (ns : List Nat) (s t : GenState) : Prop where
  trace : ∀ i, t.trace[i]? = if i ∈ ns then s.trace[i]?.map Instr.blanked else s.trace[i]?
  links : t.frames.link = s.frames.link
  refs : ∀ id, ∀ p ∈ t.frames.refs id, p ∈ s.frames.refs id

theorem Takes.trans {ns ms : List Nat} (h : s.Takes ns t) (h' : t.Takes ms u) :
    s.Takes (ns ++ ms) u where
  trace i := by
    rw [h'.trace, h.trace]
    by_cases hn : i ∈ ns <;> by_cases hm :
      i ∈ ms <;> simp [hn, hm, blanked_blanked, Function.comp_def]
  links := h'.links.trans h.links
  refs id p hp := h.refs id p (h'.refs id p hp)

theorem Takes.of_frames (htrace : t.trace = s.trace) (hlinks : t.frames.link = s.frames.link)
    (hrefs : t.frames.refs = s.frames.refs) : s.Takes [] t :=
  ⟨fun _ => by rw [htrace, if_neg List.not_mem_nil], hlinks, fun _ _ hp => hrefs ▸ hp⟩

theorem Takes.refl (s : GenState) : s.Takes [] s := .of_frames rfl rfl rfl

theorem Takes.modify {id : FrameId} {g : Frame → Frame} (hparent : ∀ f, (g f).parent = f.parent)
    (hrefs : ∀ f, (g f).ivarRefs = f.ivarRefs) :
    s.Takes [] { s with frames := s.frames.modify id g } :=
  .of_frames rfl (Frames.link_modify hparent) (Frames.refs_modify hrefs)

theorem Takes.goes (h : s.Takes [] t) (hs : s.Retractable S) : s.Goes S F t :=
  hs.goes 0 .null [] h.links nofun (fun i _ => h.trace i) fun id p hp =>
    .inl ⟨h.refs id p hp, by simp⟩

/-- Whether a declaration in a frame hides an instance variable: there is one of the name, no class,
protocol, type or predefined global is, and no variable but an implicit global that the frame gives
up. -/
def hidesIvar (s : GenState) (f : FrameId) (key : Key) : Bool :=
  ((s.frames.lookup f key).all fun v =>
    v.kind = .implicitGlobal && v.owner = some f || v.kind.description?.isNone) &&
  (Check.hiddenSymbol s key).isNone && (s.frames.ivar s.symbols f key).isSome

/-- The references that a declaration in a frame takes back. -/
def hiddenRefs (s : GenState) (f : FrameId) (key : Key) : List IvarRef :=
  if s.hidesIvar f key then s.frames.ivarRefs f key else []

/-- What a declaration in a frame does: it takes back the references to its name. -/
structure Hides (s : GenState) (f : FrameId) (key : Key) (t : GenState) : Prop where
  takes : s.Takes ((s.hiddenRefs f key).map (·.index)) t
  gone : s.hidesIvar f key = true → ∀ p ∈ t.frames.refs f, p.1 ≠ key

theorem mem_ivarRefs_of_hiddenRefs {key : Key} {r : IvarRef} (hr : r ∈ s.hiddenRefs f key) :
    s.hidesIvar f key = true ∧ r ∈ s.frames.ivarRefs f key := by
  unfold hiddenRefs at hr
  split at hr
  · exact ⟨‹_›, hr⟩
  · cases hr

theorem Hides.nothing {key : Key} (hides : s.hidesIvar f key = false) (h : s.Takes [] t) :
    s.Hides f key t := by
  refine ⟨?_, fun hkey => ?_⟩
  · simpa [hiddenRefs, hides] using h
  · simp [hides] at hkey

theorem Hides.trans {key : Key} (h : s.Hides f key t) (h' : t.Takes [] u) : s.Hides f key u where
  takes := by simpa using h.takes.trans h'
  gone hides p hp := h.gone hides p (h'.refs f p hp)

theorem Hides.goes {key : Key} (h : s.Hides f key t) (hs : s.Retractable S) (hf : S f)
    (hF : F f) : s.Goes S F t := by
  obtain ⟨h, hgone⟩ := h
  refine hs.goes f key _ h.links (fun n hn => ?_) (fun i _ => h.trace i) fun id p hp =>
    .inl ⟨h.refs id p hp, fun hid => ?_⟩
  · obtain ⟨r, hr, rfl⟩ := List.mem_map.1 hn
    exact ⟨f, hf, hF, (key, r), Frames.mem_refs_of_mem (mem_ivarRefs_of_hiddenRefs hr).2, rfl⟩
  have hapart {r : IvarRef} (hr : r ∈ s.hiddenRefs f key) :
      r.index ≠ p.2.index ∧ r.index ≠ p.2.index + 1 := by
    obtain ⟨hides, hr⟩ := mem_ivarRefs_of_hiddenRefs hr
    have hmem : (key, r) ∈ s.frames.refs f := Frames.mem_refs_of_mem hr
    have := hs.apart f id hf hid _ hmem p (h.refs id p hp)
    have := hs.apart id f hid hf p (h.refs id p hp) _ hmem
    have := hgone hides
    grind
  constructor
  · intro hn
    obtain ⟨r, hr, hindex⟩ := List.mem_map.1 hn
    exact (hapart hr).1 hindex
  · intro hn
    obtain ⟨r, hr, hindex⟩ := List.mem_map.1 hn
    exact (hapart hr).2 hindex

/-! ### Frames inside of others -/

variable {frame : Frame}

/-- A frame that is opened inside of another one remembers nothing. -/
theorem Retractable.enter (hs : s.Retractable S) (hf : S f) (hrefs : frame.ivarRefs = {})
    (hparent : ∀ up, frame.parent = some up → up = f) :
    { s with frames := (s.frames.new frame).2 }.Retractable
      (fun id => S id ∨ id = s.frames.store.size) := by
  have hold {id : FrameId} (hid : S id ∨ id = s.frames.store.size) {p : Key × IvarRef}
      (hp : p ∈ s.frames.refs id) : S id := hid.resolve_right fun h => by
    rw [h, Frames.refs_size] at hp
    cases hp
  refine ⟨fun id hid => ?_, fun id hid p hp => ?_, fun id id' hid hid' p hp p' hp' => ?_⟩
  · rw [Frames.link_new]
    grind [hs.around]
  · rw [Frames.refs_new hrefs] at hp
    exact hs.refers id (hold hid hp) p hp
  · rw [Frames.refs_new hrefs] at hp hp'
    exact hs.apart id id' (hold hid hp) (hold hid' hp') p hp p' hp'

/-- What a frame remembers may be handed on to the frame around it when it ends. -/
theorem Goes.leave (hs : s.Retractable S) (hrefs : frame.ivarRefs = {})
    (h : { s with frames := (s.frames.new frame).2 }.Goes
      (fun id => S id ∨ id = s.frames.store.size) (fun id => id = f ∨ id = s.frames.store.size) t)
    (htrace : u.trace = t.trace) (hlinks : u.frames.link = t.frames.link)
    (hcopied : ∀ id, ∀ p ∈ u.frames.refs id, p ∈ t.frames.refs id ∨
      id = f ∧ p ∈ t.frames.refs s.frames.store.size) : s.Goes S (· = f) u := by
  have hnew {id : FrameId} (hid : S id) : id ≠ s.frames.store.size := by
    rintro rfl
    obtain ⟨up, hup, _⟩ := hs.around _ hid
    simp [Frames.link_size] at hup
  have hlink (id : FrameId) (up : Option FrameId) (hup : s.frames.link id = some up) :
      u.frames.link id = some up := by
    rw [hlinks]
    refine h.links id up ?_
    rw [Frames.link_new, if_neg, hup]
    rintro rfl
    simp [Frames.link_size] at hup
  refine ⟨⟨fun id hid => ?_, fun id hid p hp => ?_, fun id id' hid hid' p hp p' hp' => ?_⟩, hlink,
    fun i hi => ?_, fun id hid p hp => ?_⟩
  · obtain ⟨up, hup, hS⟩ := hs.around id hid
    exact ⟨up, hlink id up hup, hS⟩
  · have hrefers := h.retractable.refers
    rw [Refers, htrace]
    rcases hcopied id p hp with hp | ⟨_, hp⟩
    · exact hrefers id (.inl hid) p hp
    · exact hrefers _ (.inr rfl) p hp
  · have hapart := h.retractable.apart
    grind
  · rw [htrace]
    refine (h.stays i hi).imp_right fun ⟨heq, id, hS, hid, p, hp, hi⟩ => ⟨heq, id, ?_⟩
    rw [Frames.refs_new hrefs] at hp
    have hne : id ≠ s.frames.store.size := by
      rintro rfl
      rw [Frames.refs_size] at hp
      cases hp
    exact ⟨hS.resolve_right hne, hid.resolve_right hne, p, hp, hi⟩
  · have hgains := h.gains
    have hsize := @Frames.refs_size s.frames
    simp only [Frames.refs_new hrefs] at hgains
    grind

end GenState

end ObjectiveJ
