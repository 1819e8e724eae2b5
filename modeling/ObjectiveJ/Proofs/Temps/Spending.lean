import ObjectiveJ.Proofs.Temps.State

/-!
# The law of receiver temps

What a step writes divides into visits. The temps in these are numbered from those in use on, the
frame that owns them remembers how many there were at most, and all is as before in the other
frames. A step that compiles the inside of a node spends what the node around it counts, so
`SpentAs` has a parameter for that.
-/

namespace ObjectiveJ

open Gen

variable {i : Instr}

/-- The temps that are counted in a state are those in use, and they are remembered. -/
structure GenState.Counts (s : GenState) (wrapped : Bool) : Prop where
  objjScope : s.settings.objjScope = wrapped
  nonneg : ∀ id, 0 ≤ s.frames.level id
  le : ∀ id, s.frames.level id ≤ s.frames.maxLevel id
  refs : s.frames.RefsIn s.marks

/-- Visits take temps of a frame. -/
structure Spends (wrapped : Bool) (owner : FrameId) (fs gs : Frames) (vs : Visits) : Prop where
  others : ∀ id < fs.store.size, id ≠ owner → gs.maxLevel id = fs.maxLevel id
  most : gs.maxLevel owner = max (fs.maxLevel owner) (fs.level owner + vs.depth wrapped)
  numbered : vs.Numbered wrapped (fs.level owner).toNat
  exact : ∀ scope ∈ vs.scopes wrapped, scope.Exact wrapped

/-- What becomes of a state: visits are written that fit, and they are counted in some way. -/
def Spending (wrapped : Bool) (frame : FrameId) (count : Visits → Visits) (P : Visits → Prop)
    (s t : GenState) : Prop :=
  s.frames.Kept t.frames ∧ (s.Counts wrapped → t.Counts wrapped ∧ ∃ vs,
    t.marks = s.marks ++ vs.flatten ∧
      Spends wrapped (s.frames.varFrame frame) s.frames t.frames (count vs) ∧ P vs)

def SpentAs (wrapped : Bool) (frame : FrameId) (count : Visits → Visits) {α : Type} (m : Gen α)
    (P : Visits → Prop) : Prop :=
  ∀ s, frame < s.frames.store.size →
    wp m (fun _ t => Spending wrapped frame count P s t) (fun _ _ => True) s

/-- The law of steps that write whole visits. -/
abbrev Spent (wrapped : Bool) (frame : FrameId) {α : Type} (m : Gen α) (P : Visits → Prop) : Prop :=
  SpentAs wrapped frame id m P

variable {wrapped : Bool} {frame owner : FrameId} {α β : Type} {P Q : Visits → Prop}
  {s t u : GenState} {fs gs hs : Frames} {vs ws : Visits}

theorem Spends.trans (h : Spends wrapped owner fs gs vs) (h' : Spends wrapped owner gs hs ws)
    (hkept : fs.Kept gs) : Spends wrapped owner fs hs (vs ++ ws) where
  others id hid hne :=
    (h'.others id (Nat.lt_of_lt_of_le hid hkept.size) hne).trans (h.others id hid hne)
  most := by
    rw [h'.most, h.most, hkept.level, Visits.depth_append]
    omega
  numbered := by
    have hnumbered := h'.numbered
    rw [hkept.level] at hnumbered
    exact Visits.numbered_append.2 ⟨h.numbered, hnumbered⟩
  exact scope hscope := by
    rw [Visits.scopes, Visits.scopesIn_append, List.mem_append] at hscope
    exact hscope.elim (h.exact scope) (h'.exact scope)

theorem Spends.nil (hle : fs.level owner ≤ fs.maxLevel owner)
    (h : ∀ id, gs.maxLevel id = fs.maxLevel id) : Spends wrapped owner fs gs .nil where
  others id _ _ := h id
  most := by
    rw [h, Visits.depth]
    omega
  numbered := trivial
  exact scope hscope := absurd hscope List.not_mem_nil

theorem Spends.piece {p : Piece} (hle : fs.level owner ≤ fs.maxLevel owner)
    (hp : p ≠ .template tempsHeader) : Spends wrapped owner fs fs (.piece p .nil) where
  others _ _ _ := rfl
  most := by
    rw [Visits.depth, Visits.depth]
    omega
  numbered := ⟨hp, trivial⟩
  exact scope hscope := absurd hscope List.not_mem_nil

theorem Spending.trans {count count' both : Visits → Visits} {R : Visits → Prop}
    (h : Spending wrapped frame count P s t) (h' : Spending wrapped frame count' Q t u)
    (hframe : frame < s.frames.store.size)
    (hboth : ∀ {owner fs gs hs xs ys}, P xs → Q ys → fs.Kept gs →
      Spends wrapped owner fs gs (count xs) →
      Spends wrapped owner gs hs (count' ys) → Spends wrapped owner fs hs (both (xs ++ ys)))
    (hR : ∀ xs ys, P xs → Q ys → R (xs ++ ys)) : Spending wrapped frame both R s u := by
  refine ⟨h.1.trans h'.1, fun hs => ?_⟩
  obtain ⟨ht, xs, hmarks, hspends, hP⟩ := h.2 hs
  obtain ⟨hu, ys, hmarks', hspends', hQ⟩ := h'.2 ht
  rw [h.1.varFrame hframe] at hspends'
  refine ⟨hu, xs ++ ys, ?_, hboth hP hQ h.1 hspends hspends', hR xs ys hP hQ⟩
  rw [hmarks', hmarks, Visits.flatten_append, List.append_assoc]

theorem Spending.mono {count : Visits → Visits} (h : Spending wrapped frame count P s t)
    (hPQ : ∀ vs, P vs → Q vs) : Spending wrapped frame count Q s t := by
  refine ⟨h.1, fun hs => ?_⟩
  obtain ⟨hcounts, vs, hmarks, hspends, hP⟩ := h.2 hs
  exact ⟨hcounts, vs, hmarks, hspends, hPQ vs hP⟩

theorem SpentAs.mono {count : Visits → Visits} {m : Gen α} (h : SpentAs wrapped frame count m P)
    (hPQ : ∀ vs, P vs → Q vs) : SpentAs wrapped frame count m Q := fun s hframe =>
  (h s hframe).imp fun _ _ ht => ht.mono hPQ

theorem SpentAs.bind {count count' both : Visits → Visits} {R : Visits → Prop} {m : Gen α}
    {k : α → Gen β}
    (hm : SpentAs wrapped frame count m P) (hk : ∀ a, SpentAs wrapped frame count' (k a) Q)
    (hboth : ∀ {owner fs gs hs xs ys}, P xs → Q ys → fs.Kept gs →
      Spends wrapped owner fs gs (count xs) →
      Spends wrapped owner gs hs (count' ys) → Spends wrapped owner fs hs (both (xs ++ ys)))
    (hR : ∀ xs ys, P xs → Q ys → R (xs ++ ys)) : SpentAs wrapped frame both (m >>= k) R :=
  fun s hframe => (hm s hframe).bind fun a t ht =>
    (hk a t (Nat.lt_of_lt_of_le hframe ht.1.size)).imp fun _ _ hu => ht.trans hu hframe hboth hR

theorem Spent.seq {R : Visits → Prop} {m : Gen α} {k : α → Gen β} (hm : Spent wrapped frame m P)
    (hk : ∀ a, Spent wrapped frame (k a) Q) (hR : ∀ xs ys, P xs → Q ys → R (xs ++ ys)) :
    Spent wrapped frame (m >>= k) R := hm.bind hk (fun _ _ hkept h h' => h.trans h' hkept) hR

theorem Spending.of_quiet (h : Quiet s t) (hP : P .nil) : Spending wrapped frame id P s t := by
  have hlevel (id : FrameId) : t.frames.level id = s.frames.level id := by
    rw [Frames.level_eq, Frames.level_eq, h.temps]
  have hmax (id : FrameId) : t.frames.maxLevel id = s.frames.maxLevel id := by
    rw [Frames.maxLevel_eq, Frames.maxLevel_eq, h.temps]
  refine ⟨Frames.Kept.of_temps h.temps, fun hs => ?_⟩
  obtain ⟨hrefs, hmarks⟩ := h.refs hs.refs
  refine ⟨⟨?_, ?_, ?_, hrefs⟩, .nil, ?_, Spends.nil (hs.le _) hmax, hP⟩
  · rw [h.settings]
    exact hs.objjScope
  · intro id
    rw [hlevel]
    exact hs.nonneg id
  · intro id
    rw [hlevel, hmax]
    exact hs.le id
  · rw [hmarks]
    exact (List.append_nil _).symm

theorem Spent.of_quiets {m : Gen α} (h : Quiets m) (hP : P .nil) : Spent wrapped frame m P :=
  fun s _ => (h s).imp fun _ _ ht => Spending.of_quiet ht hP

/-! ### Pieces -/

theorem wp_emit (i : Instr) (s : GenState) :
    wp (emit i) (fun _ t => t.frames = s.frames ∧ t.settings = s.settings ∧
      t.marks = s.marks ++ [i.mark]) (fun _ _ => True) s :=
  wp_instr i ⟨rfl, rfl, s.marks_push i⟩ trivial

theorem GenState.Counts.more (h : s.Counts wrapped) (hframes : t.frames = s.frames)
    (hsettings : t.settings = s.settings) {ms : List Mark} (hmarks : t.marks = s.marks ++ ms) :
    t.Counts wrapped where
  objjScope := by rw [hsettings, h.objjScope]
  nonneg := by rw [hframes]; exact h.nonneg
  le := by rw [hframes]; exact h.le
  refs := by
    rw [hframes, hmarks]
    exact h.refs.append _

theorem Piece.other_ne (s : String) : Piece.other ≠ .template s := by rintro ⟨⟩

theorem Instr.mark_of_isPlain (h : i.isPlain = true) :
    ∃ p, i.mark = .piece p ∧ p ≠ .template tempsHeader := by
  cases i with
  | text buffer value location =>
    cases value with
    | data json =>
      cases json with
      | str s => exact ⟨_, rfl, by rintro ⟨⟩⟩
      | _ => exact ⟨.other, rfl, Piece.other_ne _⟩
    | _ => exact ⟨.other, rfl, Piece.other_ne _⟩
  | template buffer s skipFirst location =>
    refine ⟨_, rfl, fun heq => ?_⟩
    cases heq
    simp [isPlain] at h
  | hook buffer type key ancestry =>
    cases key with
    | plain key =>
      obtain ⟨hbefore, hafter⟩ := of_decide_eq_true (Bool.and_eq_true_iff.1 h).2
      exact ⟨.other, (if_neg hbefore).trans (if_neg hafter), Piece.other_ne _⟩
    | bracket side name elements => exact ⟨.other, rfl, Piece.other_ne _⟩
  | indent levels => exact ⟨.other, rfl, Piece.other_ne _⟩
  | dedent levels => exact ⟨.other, rfl, Piece.other_ne _⟩
  | splice target source => exact ⟨.splice, rfl, by rintro ⟨⟩⟩

theorem Shift.mark_opening (sh : Shift) (ancestry : Ancestry) :
    (sh.opening ancestry).mark = .piece .other := by
  cases sh with
  | inside buffer type e => cases e <;> rfl
  | _ => rfl

theorem Shift.mark_closing (sh : Shift) (ancestry : Ancestry) :
    (sh.closing ancestry).mark = .piece .other := by
  cases sh with
  | inside buffer type e => cases e <;> rfl
  | _ => rfl

theorem Spent.emit {p : Piece} (hi : i.mark = .piece p) (hp : p ≠ .template tempsHeader)
    (hP : P (.piece p .nil)) : Spent wrapped frame (emit i) P := by
  intro s _
  refine (wp_emit i s).imp fun _ t ⟨hframes, hsettings, hmarks⟩ => ?_
  refine ⟨hframes ▸ Frames.Kept.refl _, fun hs => ?_⟩
  refine ⟨hs.more hframes hsettings hmarks, .piece p .nil, ?_, ?_, hP⟩
  · rw [hmarks, hi]
    rfl
  · rw [hframes]
    exact Spends.piece (hs.le _) hp

theorem Spent.emit_other (hi : i.mark = .piece .other) (hP : P (.piece .other .nil)) :
    Spent wrapped frame (Gen.emit i) P := .emit hi (Piece.other_ne _) hP

/-! ### Nodes -/

theorem Visits.scopes_node {type : String} (hscope : isScope wrapped type = false) :
    (node type vs .nil).scopes wrapped = vs.scopes wrapped := by
  have hfunction : isFunction type = false := (Bool.or_eq_false_iff.1 hscope).1
  simp [scopes, scopesIn, hscope, hfunction]

theorem Spends.of_plain {type : String} (hscope : Visits.isScope wrapped type = false)
    (hliteral : Visits.isLiteral type = false) (hmessage : Visits.isMessage type = false)
    (h : Spends wrapped owner fs gs vs) : Spends wrapped owner fs gs (.node type vs .nil) := by
  have hown : Visits.ownTemps type vs = [] := by
    simp [Visits.ownTemps, hliteral, hmessage]
  refine ⟨h.others, ?_, ?_, fun scope hmem => h.exact scope ?_⟩
  · rw [h.most, Visits.depth, Visits.depth, hscope, hown]
    simp
  · refine ⟨fun _ => ⟨⟨?_, ?_⟩, .inl ⟨hown, h.numbered⟩⟩, trivial⟩
    · rw [hliteral]
      rintro ⟨⟩
    · rw [hmessage]
      rintro ⟨⟩
  · rwa [Visits.scopes_node hscope] at hmem

/-- What is written of a node stands between its two hooks. -/
theorem wp_enclose {type : String} {role : StatementRole} {body : Walk} {site : Site}
    {Q : GenState → Prop}
    (h : ∀ t : GenState, t.frames = s.frames → t.settings = s.settings →
      t.marks = s.marks ++ [.enter type] →
      wp (body { site with type }) (fun _ u => ∀ x : GenState, x.frames = u.frames →
        x.settings = u.settings → x.marks = u.marks ++ [.leave type] → Q x) (fun _ _ => True) t) :
    wp (enclose type role body site) (fun _ u => Q u) (fun _ _ => True) s := by
  rw [Gen.enclose, within]
  simp only [wp_bind, wp_modify, hook, hookOf, wp_get]
  refine (wp_emit _ _).imp fun _ t ht => (h t ht.1 ht.2.1 ht.2.2).imp fun _ u hu => ?_
  exact (wp_emit _ _).imp fun _ x hx => hu _ hx.1 hx.2.1 hx.2.2

/-- A node is compiled: the inside of it spends what the node counts. -/
theorem Spent.enclose {type : String} {role : StatementRole} {body : Walk} {site : Site}
    (h : SpentAs wrapped frame (.node type · .nil) (body { site with type }) P) :
    Spent wrapped frame (enclose type role body site)
      fun ws => ∃ vs, ws = .node type vs .nil ∧ P vs := by
  intro s hframe
  refine wp_enclose fun t hframes hsettings hbefore => ?_
  refine (h t (hframes ▸ hframe)).imp fun _ u hu x hframes' hsettings' hafter => ?_
  have hkept : s.frames.Kept u.frames := hframes ▸ hu.1
  refine ⟨hframes' ▸ hkept, fun hs => ?_⟩
  obtain ⟨hcounts, vs, hmarks, hspends, hP⟩ := hu.2 (hs.more hframes hsettings hbefore)
  refine ⟨hcounts.more hframes' hsettings' hafter, .node type vs .nil, ?_, ?_, vs, rfl, hP⟩
  · rw [hafter, hmarks, hbefore]
    simp [Visits.flatten]
  · rw [hframes', ← hframes]
    exact hspends

/-! ### The law -/

/-- Statements about visits that hold of pieces and of visits one after another. -/
structure Visits.Closed (P : Visits → Prop) : Prop where
  nil : P .nil
  piece : ∀ p, p ≠ .template tempsHeader → P (.piece p .nil)
  append : ∀ xs ys, P xs → P ys → P (xs ++ ys)

theorem Visits.Closed.other (hP : Visits.Closed P) : P (.piece .other .nil) :=
  hP.piece _ (Piece.other_ne _)

theorem Spent.ivarReference {t : Tree} {key : Key} {name : Value} {id : FrameId} {buffer : Nat}
    (hP : Visits.Closed P) :
    Spent wrapped frame (do
      let s ← get
      modifyFrames (·.addIvarRefs id key name [{ index := s.trace.size, location := t.location }])
      textAt buffer "self." t.location) P := by
  intro s _
  simp only [wp_bind, wp_get, modifyFrames, wp_modify, textAt, writeAt]
  refine (wp_emit _ _).imp fun _ u hu => ?_
  obtain ⟨hframes, hsettings, hmarks⟩ := hu
  have htemps : u.frames.temps = s.frames.temps := by
    rw [hframes]
    exact Frames.temps_modify fun _ => rfl
  have hmax (id : FrameId) : u.frames.maxLevel id = s.frames.maxLevel id := by
    rw [Frames.maxLevel_eq, Frames.maxLevel_eq, htemps]
  have hkept := Frames.Kept.of_temps htemps
  have hpiece : Piece.text "" ≠ .template tempsHeader := by rintro ⟨⟩
  refine ⟨hkept, fun hs => ⟨⟨?_, ?_, ?_, ?_⟩, .piece (.text "") .nil, hmarks, ?_,
    hP.piece _ hpiece⟩⟩
  · rw [hsettings]
    exact hs.objjScope
  · intro id
    rw [hkept.level]
    exact hs.nonneg id
  · intro id
    rw [hkept.level, hmax]
    exact hs.le id
  · rw [hframes, hmarks]
    refine Frames.RefsIn.addIvarRefs (hs.refs.append _) _ _ _ fun r hr => ?_
    obtain rfl := List.mem_singleton.1 hr
    have hlength : s.trace.size = s.marks.length := by simp [GenState.marks]
    rw [hlength]
    exact List.getElem?_concat_length ..
  · have hpiece : Spends wrapped _ s.frames s.frames (.piece (.text "") .nil) :=
      Spends.piece (hs.le (s.frames.varFrame frame)) hpiece
    exact ⟨fun id _ _ => hmax id, (hmax _).trans hpiece.most, hpiece.numbered, hpiece.exact⟩

theorem Spent.look {k : GenState → Gen β} (hP : Visits.Closed P)
    (hk : ∀ s, Spent wrapped frame (k s) P) : Spent wrapped frame (get >>= k) P :=
  Spent.seq (Spent.of_quiets Quiets.get hP.nil) hk hP.append

theorem spent_judges (wrapped : Bool) {P : Visits → Prop} (hP : Visits.Closed P) (frame : FrameId) :
    Judges fun {_} m => Spent wrapped frame m P where
  pure _ := Spent.of_quiets (quiets_checks.pure _) hP.nil
  incomplete := Spent.of_quiets quiets_checks.incomplete hP.nil
  bind hm hk := Spent.seq hm hk hP.append
  throw _ h := Spent.of_quiets (quiets_checks.judge.throw _ h) hP.nil
  look _ := Spent.look hP
  warned hm := Spent.of_quiets (hm quiets_checks.warner) hP.nil
  error _ _ := Spent.of_quiets (quiets_checks.error _ _) hP.nil
  errorNote _ _ _ _ := Spent.of_quiets (quiets_checks.judge.errorNote _ _ _ _) hP.nil
  fatalAt _ _ h := Spent.of_quiets (quiets_checks.fatalAt _ h) hP.nil
  declare _ _ _ := Spent.of_quiets (quiets_checks.declare _ _ _) hP.nil

theorem Spent.plainInstr (hP : Visits.Closed P) (hi : i.isPlain = true) :
    Spent wrapped frame (Gen.emit i) P :=
  let ⟨_, hmark, hp⟩ := Instr.mark_of_isPlain hi
  Spent.emit hmark hp (hP.piece _ hp)

theorem Spent.setContext (hP : Visits.Closed P) (id : FrameId) (g : Context → Context) :
    Spent wrapped frame (Gen.setContext id g) P :=
  Spent.of_quiets (Quiets.modifyFrame (fun _ _ => rfl) fun _ _ _ h => h) hP.nil

/-- Steps that come to a result write visits whose temps are numbered, and of which a statement
holds. -/
def tempLaw (wrapped : Bool) {P : Visits → Prop} (hP : Visits.Closed P) : Law where
  Allows frame {_} m := Spent wrapped frame m P
  Admits _ := True
  admits_part _ _ := trivial
  admits_item _ _ _ := trivial
  judges := spent_judges wrapped hP
  hiddenBy _ _ := Spent.of_quiets (Quiets.hiddenBy _ _) hP.nil
  emit _ _ := Spent.plainInstr hP
  shifted {f} sh _ _ hm := (spent_judges wrapped hP f).shifted (fun _ => Spent.look hP) sh
    (fun _ => Spent.emit_other (sh.mark_opening _) hP.other)
    (fun _ => Spent.emit_other (sh.mark_closing _) hP.other) hm
  style {f} _ _ _ hk :=
    (spent_judges wrapped hP f).style (Spent.look hP) (Spent.plainInstr hP) fun s =>
      hk s s (.refl s)
  newBuffer _ := Spent.of_quiets (fun _ => ⟨rfl, rfl, fun h => ⟨h, rfl⟩, fun _ => rfl⟩) hP.nil
  setContext _ _ _ _ := Spent.setContext hP _ _
  assigning {f} id v _ hm :=
    (spent_judges wrapped hP f).assigning (fun _ => Spent.look hP) (Spent.setContext hP) id v hm
  undeclare _ _ _ :=
    Spent.of_quiets (Quiets.modifyFrame (fun _ _ => rfl) fun _ _ _ h => h) hP.nil
  selfAssigned _ _ :=
    Spent.of_quiets (Quiets.modifyFrame (fun _ _ => rfl) fun _ _ _ h => h) hP.nil
  ivarReference _ _ _ _ _ :=
    Spent.seq (Spent.ivarReference hP) (fun _ => Spent.plainInstr hP rfl) hP.append

theorem closed_true : Visits.Closed fun _ => True :=
  ⟨trivial, fun _ _ => trivial, fun _ _ _ _ => trivial⟩

theorem not_tempType {type : String} (h : type ∉ tempTypes) :
    Visits.isScope wrapped type = false ∧ Visits.isLiteral type = false ∧
      Visits.isMessage type = false := by
  simp only [tempTypes, List.mem_cons, List.not_mem_nil, not_or] at h
  simp [Visits.isScope, Visits.isFunction, Visits.isLiteral, Visits.isMessage, h]

theorem tempLaw_encloses : (tempLaw wrapped closed_true).Encloses := by
  intro frame type role body site htype hbody
  obtain ⟨hscope, hliteral, hmessage⟩ := @not_tempType wrapped _ htype
  refine (Spent.enclose (P := fun _ => True) fun s hs => ?_).mono fun _ _ => trivial
  refine (hbody s hs).imp fun _ _ ht => ⟨ht.1, fun hcounts => ?_⟩
  obtain ⟨hcounts, vs, hmarks, hspends, _⟩ := ht.2 hcounts
  exact ⟨hcounts, vs, hmarks, hspends.of_plain hscope hliteral hmessage, trivial⟩

end ObjectiveJ
