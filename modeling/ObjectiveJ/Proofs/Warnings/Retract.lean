import ObjectiveJ.Proofs.Law.Arrival
import ObjectiveJ.Proofs.Layout.Retract
import ObjectiveJ.Proofs.Warnings.References

/-!
# References that are taken back

Each `self.` that the generator remembers can be taken back in every state that it reaches
(`Reaches.references_retractable`). The steps that keep it so are a law (`recallLaw`), and what the
law asks of states holds wherever the generator comes to a node (`Arrives.exists_retractable`).
-/

namespace ObjectiveJ

open Gen

/-! ### Steps -/

/-- Steps that write nothing and remember nothing. -/
def Idles {α : Type} (m : Gen α) : Prop :=
  ∀ s, wp m (fun _ t => s.Takes [] t) (fun e _ => e ≠ .interruption) s

/-- Steps in some frames that leave what is remembered retractable. -/
def Recalling (F : FrameId → Prop) {α : Type} (m : Gen α) : Prop :=
  ∀ S s, (∀ id, F id → S id) → s.Retractable S →
    wp m (fun _ t => s.Goes S F t) (fun e _ => e ≠ .interruption) s

variable {α β : Type} {F : FrameId → Prop} {f inner : FrameId}

theorem Idles.checks : Checks @Idles where
  pure _ s := .refl s
  incomplete _ := nofun
  throw h _ := Failure.ne_interruption h
  bind hm hk s := (hm s).bind fun a t ht => (hk a t).imp fun _ _ hu => ht.trans hu
  look _ hk s := (wp_bind ..).2 (hk s s)
  diagnose _ _ := .of_frames rfl rfl rfl
  declare _ _ _ _ := .modify (fun _ => rfl) fun _ => rfl
  park _ _ _ _ _ _ := .modify (fun _ => rfl) fun _ => rfl

theorem wp_takeBack (name : Value) (refs : List IvarRef) (s : GenState) :
    wp (Check.takeBack name refs) (fun _ t => s.Takes (refs.map (·.index)) t)
      (fun e _ => e ≠ .interruption) s := by
  induction refs generalizing s with
  | nil => exact GenState.Takes.refl s
  | cons r rest ih =>
    have hretract : s.Takes [r.index] { s with trace := s.trace.modify r.index Instr.blanked } :=
      ⟨fun i => by simp [Array.getElem?_modify, eq_comm], rfl, fun _ _ h => h⟩
    refine (wp_bind ..).2 ((Idles.checks.warns _ _).bind fun on t ht => ?_)
    split
    · refine (Idles.checks.warning _ _ t).bind fun _ u hu => (ih u).imp fun _ x hx => ?_
      exact hretract.trans (ht.trans (hu.trans hx))
    · exact (ih t).imp fun _ x hx => hretract.trans (ht.trans hx)

theorem wp_hiddenBesides {frame : FrameId} {key : Key} {s t : GenState} (name : Value)
    (hvar : (s.frames.lookup frame key).all (fun v =>
      v.kind = .implicitGlobal && v.owner = some frame || v.kind.description?.isNone) = true)
    (ht : s.Takes [] t) : wp (Check.hiddenBesides s frame name key)
      (fun _ u => s.Hides frame key u) (fun e _ => e ≠ .interruption) t := by
  unfold Check.hiddenBesides
  cases hsymbol : Check.hiddenSymbol s key with
  | some hidden => exact .nothing (by simp [GenState.hidesIvar, hsymbol]) ht
  | none =>
    cases hivar : s.frames.ivar s.symbols frame key with
    | none => exact .nothing (by simp [GenState.hidesIvar, hivar]) ht
    | some ivar =>
      have hides : s.hidesIvar frame key = true := by simp [GenState.hidesIvar, hvar,
        hsymbol, hivar]
      have hdrop : t.Takes [] { t with frames := t.frames.dropIvarRefs frame key } :=
        ⟨fun _ => by simp, Frames.link_modify fun _ => rfl,
          fun _ _ hp => (Frames.mem_refs_dropIvarRefs hp).1⟩
      refine (wp_bind ..).2 ((wp_takeBack name _ _).bind fun _ u hu => ⟨?_, fun _ p hp heq => ?_⟩)
      · rw [GenState.hiddenRefs, if_pos hides]
        exact ht.trans (hdrop.trans hu)
      · exact (Frames.mem_refs_dropIvarRefs (hu.refs frame p hp)).2 ⟨rfl, heq⟩

theorem wp_hiddenBy (frame : FrameId) (name : Value) (s : GenState) :
    wp (Check.hiddenBy frame name) (fun _ t => ∃ key, name.key? = some key ∧ s.Hides frame key t)
      (fun e _ => e ≠ .interruption) s := by
  refine (wp_bind ..).2 (wp_ofOption (fun key hkey => (wp_bind ..).2 ?_) nofun)
  rw [wp_get]
  have hbesides (t : GenState) (ht : s.Takes [] t)
      (hvar : (s.frames.lookup frame key).all (fun v =>
        v.kind = .implicitGlobal && v.owner = some frame || v.kind.description?.isNone) = true) :
      wp (Check.hiddenBesides s frame name key)
        (fun _ t => ∃ key, name.key? = some key ∧ s.Hides frame key t)
        (fun e _ => e ≠ .interruption) t :=
    (wp_hiddenBesides name hvar ht).imp fun _ _ hu => ⟨key, hkey, hu⟩
  split
  · rename_i hnone
    exact hbesides s (.refl s) (by simp [hnone])
  rename_i v hv
  split
  · rename_i hgiven
    exact (wp_bind ..).2 (hbesides _ (.modify (fun _ => rfl) fun _ => rfl) (by simp_all))
  split
  · exact ⟨key, hkey, .nothing (by simp_all [GenState.hidesIvar]) (.refl s)⟩
  · exact hbesides s (.refl s) (by simp_all)

theorem wp_shadowing (frame : FrameId) (identifier name : Value) (entity : String) (s : GenState) :
    wp (Check.shadowing frame identifier name entity)
      (fun _ t => ∃ key, name.key? = some key ∧ s.Hides frame key t)
      (fun e _ => e ≠ .interruption) s := by
  refine (wp_bind ..).2 ((wp_hiddenBy frame name s).imp fun hidden t ⟨key, hkey, ht⟩ => ?_)
  cases hidden with
  | none => exact ⟨key, hkey, ht⟩
  | some hidden =>
    refine (Idles.checks.judge.cautioned (fun hA => hA.shadowed ..) t).imp fun _ u hu => ?_
    exact ⟨key, hkey, ht.trans hu⟩

namespace Recalling

theorem of_idles {m : Gen α} (h : Idles m) : Recalling F m := fun _ s _ hs =>
  (h s).imp fun _ _ ht => ht.goes hs

theorem mono {F' : FrameId → Prop} {m : Gen α} (h : Recalling F m) (hF : ∀ id, F id → F' id) :
    Recalling F' m := fun S s hS hs =>
  (h S s (fun id hid => hS id (hF id hid)) hs).imp fun _ _ ht => ht.mono hF

theorem bind {m : Gen α} {k : α → Gen β} (hm : Recalling F m) (hk : ∀ a, Recalling F (k a)) :
    Recalling F (m >>= k) := fun S s hS hs =>
  (hm S s hS hs).bind fun a t ht => (hk a S t hS ht.retractable).imp fun _ _ hu => ht.trans hu

theorem look {k : GenState → Gen β} (hk : ∀ s, Recalling F (k s)) : Recalling F (get >>= k) :=
  fun S s hS hs => (wp_bind ..).2 (hk s S s hS hs)

theorem modifyGet {g : GenState → α × GenState} (hg : ∀ s : GenState, s.Takes [] (g s).2) :
    Recalling F (modifyGet g : Gen α) := of_idles hg

theorem modifyFrames {g : Frames → Frames}
    (hg : ∀ s : GenState, s.Takes [] { s with frames := g s.frames }) :
    Recalling F (Gen.modifyFrames g) := of_idles hg

theorem checks (F : FrameId → Prop) : Checks (@Recalling F) where
  pure a := of_idles (Idles.checks.pure a)
  incomplete := of_idles Idles.checks.incomplete
  throw h := of_idles (Idles.checks.throw h)
  bind := bind
  look _ := look
  diagnose d := of_idles (Idles.checks.diagnose d)
  declare _ _ _ := of_idles (Idles.checks.declare _ _ _)
  park _ _ _ _ _ := of_idles (Idles.checks.park _ _ _ _ _)

theorem records (F : FrameId → Prop) : Records (@Recalling F) where
  toJudges := (checks F).judge
  symbols _ := modifyGet fun _ => .of_frames rfl rfl rfl

theorem emit (i : Instr) : Recalling F (Gen.emit i) := fun S s _ hs =>
  wp_instr i (hs.goes 0 .null [] rfl nofun
    (fun i hi => by simp [Array.getElem?_push, Nat.ne_of_lt hi])
    fun _ _ hp => .inl ⟨hp, by simp⟩) nofun

theorem ivarReference (t : Tree) (site : Site) {name : Value} {key : Key}
    (hname : name.key? = some key) : Recalling (· = site.frame) (do
      Expression.writeSelf t name site (.ivar key)
      writeAt site.buffer name t.location) := by
  intro S s _ hs
  have hgoes (u : GenState) (hframes : u.frames = s.frames.addIvarRefs site.frame key name
        [{ index := s.trace.size, location := t.location }])
      (htrace : u.trace = (s.trace.push (.text site.buffer (.str "self.") t.location)).push
        (.text site.buffer name t.location)) : s.Goes S (· = site.frame) u := by
    refine hs.goes site.frame key [] ?_ nofun (fun i hi => ?_) fun id p hp => ?_
    · rw [hframes]
      exact Frames.link_modify fun _ => rfl
    · simp [htrace, Array.getElem?_push, Nat.ne_of_lt hi, Nat.ne_of_lt (Nat.lt_succ_of_lt hi)]
    · rw [hframes] at hp
      rcases Frames.mem_refs_addIvarRefs hp with hp | ⟨hid, hkey, hr⟩
      · exact .inl ⟨hp, by simp⟩
      · rw [List.mem_singleton.1 hr]
        refine .inr ⟨⟨hid, hkey, rfl⟩, hid, site.buffer, name, t.location, t.location,
          hkey ▸ hname, ?_, ?_⟩
        · rw [htrace, Array.getElem?_push, if_neg (by simp), Array.getElem?_push, if_pos rfl]
        · simp [htrace, Array.getElem_push]
  refine (wp_bind ..).2 ((wp_bind ..).2 ((wp_bind ..).2 (wp_instr _ (wp_instr _ ?_ nofun) nofun)))
  exact hgoes _ rfl rfl

theorem settle (frame : FrameId) : Recalling F (Gen.settle frame) := of_idles fun s => by
  have hidle : s.Takes [] { s with frames := (s.settled frame).frames } :=
    Diagnostics.settleAll_induction (P := fun gs => s.Takes [] { s with frames := gs })
      (fun _ _ h => h.trans (.modify (fun _ => rfl) fun _ => rfl)) s.symbols (.refl s) _ _
  exact wp_settle frame ⟨hidle.trace, hidle.links, hidle.refs⟩ nofun

end Recalling

/-! ### The law -/

/-- Steps that leave what is remembered retractable, as a law. -/
def recallLaw : Law where
  Allows f := @Recalling (· = f)
  Admits _ := True
  admits_part _ _ := trivial
  admits_item _ _ _ := trivial
  judges _ := (Recalling.checks _).judge
  hiddenBy f name _ s hS hs := (wp_hiddenBy f name s).imp fun _ _ ⟨_, _, ht⟩ =>
    ht.goes hs (hS f rfl) rfl
  emit _ _ _ := Recalling.emit _
  shifted sh _ _ hm := (Recalling.checks _).shifted (fun _ => Recalling.look) sh
    (fun _ => Recalling.emit _) (fun _ => Recalling.emit _) hm
  style _ hk := (Recalling.checks _).style Recalling.look (fun _ => Recalling.emit _)
    fun s => hk s s (.refl s)
  newBuffer _ := Recalling.modifyGet fun _ => .of_frames rfl rfl rfl
  setContext _ _ _ _ := Recalling.modifyFrames fun _ => .modify (fun _ => rfl) fun _ => rfl
  assigning id v _ hm := (Recalling.checks _).assigning (fun _ => Recalling.look)
    (fun _ _ => Recalling.modifyFrames fun _ => .modify (fun _ => rfl) fun _ => rfl) id v hm
  undeclare _ _ _ := Recalling.modifyFrames fun _ => .modify (fun _ => rfl) fun _ => rfl
  selfAssigned _ _ := Recalling.modifyFrames fun _ => .modify (fun _ => rfl) fun _ => rfl
  ivarReference := Recalling.ivarReference

theorem Law.Mixed.recalling {m : Gen α} (h : recallLaw.Mixed f inner m) :
    Recalling (fun id => id = f ∨ id = inner) m := by
  induction h with
  | outside hm => exact Recalling.mono hm fun _ => .inl
  | inside hm => exact Recalling.mono hm fun _ => .inr
  | bind _ _ ihm ihk => exact ihm.bind ihk
  | look _ _ ih => exact Recalling.look ih
  | shifted sh _ ih =>
    exact (Recalling.checks _).shifted (fun _ => Recalling.look) sh (fun _ => Recalling.emit _)
      (fun _ => Recalling.emit _) ih

theorem Recalling.scope {frame : Frame} {k : FrameId → Gen Unit} (hrefs : frame.ivarRefs = {})
    (hparent : ∀ up, frame.parent = some up → up = f)
    (hk : ∀ inner, recallLaw.Nested f inner (k inner)) :
    Recalling (· = f) (newFrame frame >>= k) := by
  intro S s hS hs
  have hf : S f := hS f rfl
  have hboth (id : FrameId) (hid : id = f ∨ id = s.frames.store.size) :
      S id ∨ id = s.frames.store.size := hid.elim (fun h => .inl (h ▸ hf)) .inr
  have hnested {m : Gen Unit} (h : recallLaw.Nested f s.frames.store.size m) (t : GenState)
      (ht : { s with frames := (s.frames.new frame).2 }.Goes
        (fun id => S id ∨ id = s.frames.store.size)
          (fun id => id = f ∨ id = s.frames.store.size) t) :
      wp m (fun _ u => s.Goes S (· = f) u) (fun e _ => e ≠ .interruption) t := by
    induction h generalizing t with
    | mixed hm =>
      refine (hm.recalling _ t hboth ht.retractable).imp fun _ u hu => ?_
      exact .leave hs hrefs (ht.trans hu) rfl rfl fun _ _ => .inl
    | bind hm _ ih =>
      exact (hm.recalling _ t hboth ht.retractable).bind fun a u hu => ih a u (ht.trans hu)
    | handOn hm =>
      have hlinks : (t.frames.copyIvarRefs s.frames.store.size).link = t.frames.link :=
        Frames.copyIvarRefs_induction (P := fun gs => gs.link = t.frames.link) rfl
          fun gs _ _ _ _ _ _ h => by
            rw [← h]
            exact Frames.link_modify fun _ => rfl
      have hleft : s.Goes S (· = f)
          { t with frames := t.frames.copyIvarRefs s.frames.store.size } := by
        refine .leave hs hrefs ht rfl hlinks fun id p hp => ?_
        refine (Frames.mem_refs_copyIvarRefs hp).imp_right fun ⟨hup, hp⟩ => ⟨hparent id ?_, hp⟩
        rw [ht.links _ frame.parent (by rw [Frames.link_new, if_pos rfl])] at hup
        exact Option.some.inj hup
      exact (wp_bind ..).2 ((hm S _ hS hleft.retractable).imp fun _ u hu => hleft.trans hu)
  exact (wp_bind ..).2 (hnested (hk _) _ ((GenState.Takes.refl _).goes (hs.enter hf hrefs hparent)))

theorem recallLaw_declares : recallLaw.Declares where
  setMethods _ _ := Recalling.modifyGet fun _ => .of_frames rfl rfl rfl
  newBody _ hparent _ _ hrefs _ _ hk := Recalling.scope hrefs
    (fun _ h => Option.mem_unique h hparent) fun inner => .mixed (hk inner)
  optional _ _ := Recalling.modifyFrames fun _ => .modify (fun _ => rfl) fun _ => rfl
  records _ := Recalling.records _

theorem recallLaw_scopes : recallLaw.Scopes where
  instr _ _ _ := Recalling.emit _
  within _ hbody := Recalling.bind (Recalling.modifyGet fun _ => .of_frames rfl rfl rfl) fun _ =>
    hbody.bind fun _ => Recalling.modifyGet fun _ => .of_frames rfl rfl rfl
  takeTemp _ _ := Recalling.modifyGet fun _ => .modify (fun _ => rfl) fun _ => rfl
  dropTemp _ _ := Recalling.modifyFrames fun _ => .modify (fun _ => rfl) fun _ => rfl
  unpark _ _ := Recalling.modifyFrames fun _ => .modify (fun _ => rfl) fun _ => rfl
  declares := recallLaw_declares.declarations
  scope _ _ hrefs _ hparent hk := Recalling.scope hrefs hparent hk
  settle _ := Recalling.settle
  recordMethod _ := (Recalling.records _).methods.recordMethod

/-! ### Nodes that the generator comes to -/

/-- The nodes that the generator comes to: the program, and the parts of such nodes. The number is
how deep the parts of the node may be. -/
abbrev Arrives (program : Value) (s : GenState) : Nat → Arrival → Prop :=
  Arrival.Comes program.height ⟨.plain, program, { frame := s.frames.store.size },
    { s with frames := (s.frames.new { kind := .global }).2 }⟩

namespace GenState

variable {S : FrameId → Prop} {s t : GenState} {f : FrameId}

/-- Each `self.` that a frame or one around it remembers stands before the name that it is
remembered under, and no other of these frames remembers it. -/
def RetractableAt (s : GenState) (f : FrameId) : Prop :=
  ∀ x ∈ s.frames.chain f, ∀ p ∈ s.frames.refs x.1, s.Refers p.1 p.2.index ∧
    ∀ y ∈ s.frames.chain f, ∀ q ∈ s.frames.refs y.1, q.2.index = p.2.index → y.1 = x.1 ∧ q.1 = p.1

/-- If a declaration in a frame hides an instance variable, each `self.` that the frame remembers
under the name becomes an empty text, in every buffer that it has been copied to, and is forgotten.
No other instruction changes. -/
def TakesBack (s : GenState) (f : FrameId) (key : Key) (t : GenState) : Prop :=
  (∀ i, t.trace[i]? =
    if s.hidesIvar f key = true ∧ i ∈ (s.frames.ivarRefs f key).map (·.index) then
      s.trace[i]?.map Instr.blanked
    else s.trace[i]?) ∧
  (s.hidesIvar f key = true → t.frames.ivarRefs f key = []) ∧
  ∀ l : Layout, l.buffers = #[] → l.Retracts s.trace.toList t.trace.toList

theorem Retractable.mem_chain (hs : s.Retractable S) (hf : S f) :
    ∀ x ∈ s.frames.chain f, S x.1 := by
  induction f using Nat.strong_induction_on with
  | _ f ih =>
    intro x hx
    obtain ⟨up, hup, hS⟩ := hs.around f hf
    rw [Frames.chain] at hx
    rw [Frames.link] at hup
    cases hframe : s.frames.frame? f with
    | none => rw [hframe] at hx; cases hx
    | some g =>
      rw [hframe] at hx hup
      rcases List.mem_cons.1 hx with rfl | hx
      · exact hf
      · cases hparent : g.parent with
        | none => rw [hparent] at hx; cases hx
        | some i =>
          simp only [hparent] at hx
          split at hx
          · rename_i hlt
            exact ih i hlt (hS i ((Option.some.inj hup).symm.trans hparent)) x hx
          · cases hx

theorem Retractable.at (hs : s.Retractable S) (hf : S f) : s.RetractableAt f := by
  intro x hx p hp
  have hmem := hs.mem_chain hf
  refine ⟨hs.refers _ (hmem x hx) p hp, fun y hy q hq heq => ?_⟩
  obtain ⟨hid, hkey, _⟩ := hs.apart _ _ (hmem x hx) (hmem y hy) p hp q hq (by omega) (by omega)
  exact ⟨hid, hkey⟩

theorem Hides.takesBack {key : Key} (h : s.Hides f key t) (hs : s.Retractable S) (hf : S f) :
    s.TakesBack f key t := by
  have hmem (i : Nat) : i ∈ (s.hiddenRefs f key).map (·.index) ↔
      s.hidesIvar f key = true ∧ i ∈ (s.frames.ivarRefs f key).map (·.index) := by
    unfold hiddenRefs
    split <;> simp_all
  refine ⟨fun i => ?_, fun hides => ?_, fun l hl => Layout.retracts hl ?_⟩
  · simp only [← hmem]
    exact h.takes.trace i
  · refine List.eq_nil_iff_forall_not_mem.2 fun r hr => ?_
    exact h.gone hides (key, r) (Frames.mem_refs_of_mem hr) rfl
  have hself (i : Nat) (hi : i ∈ (s.hiddenRefs f key).map (·.index)) :
      ∃ buffer place, s.trace[i]? = some (.text buffer (.str "self.") place) := by
    obtain ⟨r, hr, rfl⟩ := List.mem_map.1 hi
    obtain ⟨buffer, _, place, _, _, h, _⟩ :=
      hs.refers f hf (key, r) (Frames.mem_refs_of_mem (mem_ivarRefs_of_hiddenRefs hr).2)
    exact ⟨buffer, place, h⟩
  have htrace : t.trace = s.trace.mapIdx fun i j =>
      if i ∈ (s.hiddenRefs f key).map (·.index) then j.blanked else j := by
    refine Array.ext_getElem? fun i => ?_
    rw [h.takes.trace, Array.getElem?_mapIdx]
    split <;> simp
  refine List.forall₂_iff_get.2 ⟨by simp [htrace], fun i hi _ => ?_⟩
  simp only [htrace, List.get_eq_getElem, Array.getElem_toList, Array.getElem_mapIdx]
  split
  · rename_i hmem
    obtain ⟨buffer, place, hat⟩ := hself i hmem
    rw [(Array.getElem?_eq_some_iff.1 hat).2]
    exact .self ..
  · exact .same _

end GenState

theorem recallLaw_asks : Arrival.Asks recallLaw fun f s => ∃ S, S f ∧ s.Retractable S where
  congr {f m m'} hm hrun S s hS hs := by
    have hwp := hm S s hS hs
    unfold wp at hwp ⊢
    rwa [hrun s ⟨S, hS f rfl, hs⟩]
  run hm := by
    rintro ⟨S, hS, hs⟩ hrun
    exact Gen.wp.error (hm S _ (fun _ h => h ▸ hS) hs) hrun rfl

theorem Arrives.exists_retractable {program : Value} {s : GenState} {n : Nat} {a : Arrival}
    (h : Arrives program s n a) : ∃ S, S a.site.frame ∧ a.state.Retractable S := by
  refine (h.meets recallLaw_asks recallLaw_scopes ⟨.inl rfl, trivial, ?_⟩).asked
  refine ⟨(· = s.frames.store.size), rfl, fun id hid => ?_, fun id hid => ?_,
    fun id _ hid _ => ?_⟩
  · exact ⟨none, by rw [hid, Frames.link_new, if_pos rfl], nofun⟩
  · rw [hid, Frames.refs_new rfl, Frames.refs_size]
    nofun
  · rw [hid, Frames.refs_new rfl, Frames.refs_size]
    nofun

/-! ### States that the generator reaches -/

/-- Code in a frame: steps that every law for programs allows there. -/
def IsCode (f : FrameId) (m : Gen α) : Prop :=
  ∀ L : Law, L.Scopes → (∀ v, L.Admits v) → L.Allows f m

theorem isCode_declarator (n : Nat) (kind : VarKind) (isFirst : Bool) (v : Value) (site : Site) :
    IsCode site.frame (Statement.declarator (walk n) kind isFirst v site) :=
  fun _ hscopes hadmits => (hscopes.walks n).1.declarator kind isFirst (hadmits v)

/-- The states that the generator reaches in a frame: those in which it comes to a node, those after
code in the frame or in one around it, and those in which a frame has been opened. -/
inductive Reaches (program : Value) (s : GenState) : FrameId → GenState → Prop
  | arrives {n : Nat} {a : Arrival} : Arrives program s n a →
    Reaches program s a.site.frame a.state
  | code {f g : FrameId} {t u : GenState} {α : Type} {m : Gen α} {b : α} :
    Reaches program s f t → g ∈ (t.frames.chain f).map Prod.fst → IsCode g m →
    m.run.run t = (.ok b, u) → Reaches program s f u
  | opens {f : FrameId} {t : GenState} {frame : Frame} : Reaches program s f t →
    frame.parent = some f → frame.ivarRefs = {} →
    Reaches program s t.frames.store.size { t with frames := (t.frames.new frame).2 }

theorem IsCode.goes {m : Gen α} {b : α} {s t : GenState} {S : FrameId → Prop} (h : IsCode f m)
    (hf : S f) (hs : s.Retractable S) (hrun : m.run.run s = (.ok b, t)) : s.Goes S (· = f) t := by
  have hrecalling : Recalling (· = f) m := h recallLaw recallLaw_scopes fun _ => trivial
  exact (hrecalling S s (fun _ hid => hid ▸ hf) hs).ok hrun

namespace Reaches

variable {program : Value} {s t : GenState}

theorem exists_retractable (h : Reaches program s f t) : ∃ S, S f ∧ t.Retractable S := by
  induction h with
  | arrives h => exact h.exists_retractable
  | code _ hg hcode hrun ih =>
    obtain ⟨S, hf, ht⟩ := ih
    obtain ⟨x, hx, rfl⟩ := List.mem_map.1 hg
    exact ⟨S, hf, (hcode.goes (ht.mem_chain hf x hx) ht hrun).retractable⟩
  | opens _ hparent hrefs ih =>
    obtain ⟨S, hf, ht⟩ := ih
    exact ⟨_, .inr rfl, ht.enter hf hrefs fun _ h => Option.mem_unique h hparent⟩

/-- What the generator remembers in a state that it reaches can be taken back, and a declaration
takes back what it hides, in every buffer. Code takes back nothing else, and frames around its own
remember no more than before. -/
theorem references_retractable (h : Reaches program s f t) : t.RetractableAt f ∧
    (∀ identifier name entity u,
      (Check.shadowing f identifier name entity).run.run t = (.ok (), u) →
      ∃ key, name.key? = some key ∧ t.TakesBack f key u) ∧
    ∀ (α : Type) (m : Gen α) b u, IsCode f m → m.run.run t = (.ok b, u) → u.RetractableAt f ∧
      (∀ i < t.trace.size, u.trace[i]? = t.trace[i]? ∨
        u.trace[i]? = t.trace[i]?.map Instr.blanked ∧ ∃ p ∈ t.frames.refs f, p.2.index = i) ∧
      ∀ x ∈ t.frames.chain f, ∀ p ∈ u.frames.refs x.1,
        p ∈ t.frames.refs x.1 ∨ x.1 = f ∧ t.trace.size ≤ p.2.index := by
  obtain ⟨S, hf, ht⟩ := h.exists_retractable
  refine ⟨ht.at hf, fun identifier name entity u hu => ?_, fun α m b u hcode hu => ?_⟩
  · obtain ⟨key, hkey, hides⟩ := (wp_shadowing ..).ok hu
    exact ⟨key, hkey, hides.takesBack ht hf⟩
  · have hgoes := hcode.goes hf ht hu
    refine ⟨hgoes.retractable.at hf, fun i hi => ?_, fun x hx =>
      hgoes.gains x.1 (ht.mem_chain hf x hx)⟩
    exact (hgoes.stays i hi).imp_right fun ⟨heq, id, _, hid, hp⟩ => ⟨heq, hid ▸ hp⟩

end Reaches

/-! ### A declaration after a message -/

/-- The variables of `var shown = [view show], view`. -/
def viewVariables : List Value :=
  [.declarator "shown" (.send (.name "view") "show" []), .declarator "view" .null]

/-- A category of a class with an instance variable `view`, and its method in which these variables
are declared. -/
def openWindow : Value :=
  .program [.classOf "Window" .null (.name "Opening") (.list []) []
    [.method "open" [.declaration viewVariables]]]

/-- The state at the start of the method. -/
def inMethod : GenState where
  settings := { objjScope := false }
  symbols := { store := #[.classDef
    { name := .str "Window"
      ivars := ⟨[(.text "view", { name := .str "view", type := .null })]⟩ }] }
  diagnostics := .ofSource none
  frames := ⟨#[{ kind := .global }, { kind := .classBody, parent := some 0, classId := some 0 },
    { kind := .method, parent := some 1, methodMarker := .str "-", selector := .str "open" }]⟩

/-- The code of the first variable. -/
def showView : Gen Unit := Statement.declarator (walk 3) .localVar true (viewVariables.headD .null)
  { frame := 2, type := "VariableDeclaration" }

/-- The check of the second variable. -/
def hideView : Gen Unit := Check.shadowing 2 .null (.str "view") "local declaration of"

/-- The code of a state, without any format. -/
def GenState.plainText? (s : GenState) : Option String := do
  let l : Layout := { format := {}, indenter := { step := .text [] } }
  Fragment.text? ((← (l.run s.trace.toList).toOption).fragments 0).toList

theorem inMethod_reached : Reaches openWindow { inMethod with frames := ⟨#[]⟩ } 2 inMethod :=
  .opens (.opens (.arrives .here) rfl rfl) rfl rfl

theorem hideView_takesBack :
    ∃ s t, Reaches openWindow { inMethod with frames := ⟨#[]⟩ } 2 s ∧
      hideView.run.run s = (.ok (), t) ∧ s.RetractableAt 2 ∧ (s.frames.refs 2).length = 1 ∧
      s.hidesIvar 2 (.text "view") = true ∧ s.TakesBack 2 (.text "view") t ∧
      s.plainText? = some ("shown=((___r1 = self.view), " ++
        "___r1 == null ? null : ___r1.isa.objj_msgSend0(___r1, \"show\"))") ∧
      t.plainText? = some ("shown=((___r1 = view), " ++
        "___r1 == null ? null : ___r1.isa.objj_msgSend0(___r1, \"show\"))") := by
  have hshow := run_of_toOption (m := showView) (s := inMethod) (by decide +kernel)
  have hhide := run_of_toOption (m := hideView) (s := (showView.run.run inMethod).2)
    (by decide +kernel)
  have hreached := inMethod_reached.code (g := 2) (by decide +kernel)
    (isCode_declarator 3 _ _ _ { frame := 2, type := "VariableDeclaration" }) hshow
  obtain ⟨hat, htakes, -⟩ := hreached.references_retractable
  obtain ⟨key, hkey, hback⟩ := htakes _ _ _ _ hhide
  cases hkey
  exact ⟨_, _, hreached, hhide, hat, by decide +kernel, by decide +kernel, hback,
    by decide +kernel, by decide +kernel⟩

end ObjectiveJ
