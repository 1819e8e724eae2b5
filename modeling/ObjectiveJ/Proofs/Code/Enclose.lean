import ObjectiveJ.Proofs.Code.Writing

/-!
# What nodes and their parts write

A node writes the hooks before and after it and what stands between them, which is marked as the
code of the node. The parts of a node may have parentheses around them or commas between them.
-/

namespace ObjectiveJ

open Gen Text

variable {name : String}

/-- A value that may be compiled: its names are clear or its nodes are regular, if that matters. -/
structure Fits (A : Account) (v : Value) : Prop where
  clear : A.clear → v.Clear
  regular : A.once → ∀ t ∈ v.nodes, A.Regular t

abbrev Site.spot (site : Site) (o : Bool) : Spot := ⟨site.buffer, site.frame, o⟩

/-- The nodes of a part have their code written, with nested brackets. -/
def Writes (A : Account) (walk : Walker) : Prop :=
  ∀ manner v site o, Fits A v → (A.once → manner.suits v = true) →
    Puts A (site.spot o) (walk manner v site) [] (v.tally A o)

variable {A : Account} {p : Spot} {o : Bool} {w w' : List Char} {n : Multiset Tree}
  {v : Value} {t : Tree} {walk : Walker} {site : Site} {s : GenState} {α β : Type}

theorem Fits.part {x : Value} (h : Fits A v) (hx : v.part? name = some x) : Fits A x where
  clear hclear := Value.clear_part? (h.clear hclear) hx
  regular honce u hu := h.regular honce u (Value.nodes_part? hx hu)

theorem Fits.field (h : Fits A (.tree t)) (hv : t.get? name = some v) : Fits A v :=
  h.part (v := .tree t) hv

theorem Fits.item {x : Value} {items : List Value} (h : Fits A v) (hitems : v.items? = some items)
    (hx : x ∈ items) : Fits A x where
  clear hclear := Value.clear_items? (h.clear hclear) hitems x hx
  regular honce u hu := h.regular honce u (Value.nodes_items? hitems hx hu)

theorem Value.mem_nodes_tree (t : Tree) : t ∈ (Value.tree t).nodes := by
  rw [Value.nodes, Tree.nodes_eq]
  exact .head _

theorem Fits.self (h : Fits A (.tree t)) (honce : A.once) : A.Regular t :=
  h.regular honce t (Value.mem_nodes_tree t)

theorem Fits.grammatical (h : Fits A (.tree t)) (honce : A.once) : t.isGrammatical = true :=
  (h.self honce).grammatical

theorem Writes.plain (h : Writes A walk) (hv : Fits A v) :
    Puts A (site.spot o) (walk .plain v site) [] (v.tally A o) := h .plain v site o hv fun _ => rfl

/-! ### Texts -/

theorem Text.isClear_tempName (level : Int) : IsClear (tempName level).toList := by
  unfold tempName
  rw [String.toList_append]
  exact IsClear.append (by decide) (isClear_int level)

/-! ### Steps without code -/

theorem rests_judges : Judges fun {_} m => Rests A m where
  pure a := ⟨steady_judges.pure a, (quiets_checks.judge.pure a).calms⟩
  incomplete := ⟨steady_judges.incomplete, quiets_checks.judge.incomplete.calms⟩
  bind hm hk := ⟨hm.1.bind fun a => (hk a).1, hm.2.bind fun a => (hk a).2⟩
  throw e he := ⟨steady_judges.throw e he, (quiets_checks.judge.throw e he).calms⟩
  look _ hk := ⟨.look fun s => (hk s).1, fun s => (hk s).2 s⟩
  warned hm := ⟨steady_judges.warned hm, (quiets_checks.judge.warned hm).calms⟩
  error about message :=
    ⟨steady_judges.error about message, (quiets_checks.judge.error about message).calms⟩
  errorNote about message earlier text := ⟨steady_judges.errorNote about message earlier text,
    (quiets_checks.judge.errorNote about message earlier text).calms⟩
  fatalAt location cause h :=
    ⟨steady_judges.fatalAt location cause h, (quiets_checks.judge.fatalAt location cause h).calms⟩
  declare frame key v :=
    ⟨steady_judges.declare frame key v, (quiets_checks.judge.declare frame key v).calms⟩

namespace Rests

variable (frame : FrameId)

theorem look {k : GenState → Gen β} (hk : ∀ s, Rests A (k s)) : Rests A (MonadState.get >>= k) :=
  ⟨.look fun s => (hk s).1, fun s => (hk s).2 s⟩

theorem ofOption {x : Option α} {k : α → Gen β} (hk : ∀ a, x = some a → Rests A (k a)) :
    Rests A (Gen.ofOption x >>= k) := by
  cases x with
  | none => exact ⟨fun _ _ => trivial, fun _ _ => trivial⟩
  | some a => exact hk a rfl

theorem ancestry (g : Ancestry → Ancestry) :
    Rests A (modify fun s => { s with ancestry := g s.ancestry } : Gen Unit) :=
  ⟨fun _ hs => ⟨⟨⟨hs.numbers.issues, hs.numbers.waiting⟩, hs.seen, hs.faces, hs.symbols, hs.source⟩,
      rfl, rfl,
      rfl, fun _ _ h => h, fun h => h⟩,
    fun _ hs => ⟨hs, rfl⟩⟩

theorem modifyFrame {i : GenState → FrameId} {g : GenState → Frame → Frame}
    (hface : ∀ s f, (g s f).face = f.face) (hparked : ∀ s f, (g s f).parked = f.parked)
    (hrefs : ∀ s f, ∀ e ∈ (g s f).ivarRefs.entries.entries, e ∈ f.ivarRefs.entries.entries) :
    Rests A (modify fun s => { s with frames := s.frames.modify (i s) (g s) } : Gen Unit) :=
  ⟨.modifyFrame hface hparked, fun s hs =>
    ⟨hs.modify fun f hf e he => hf e (hrefs s f e he), rfl⟩⟩

theorem setContext (g : Context → Context) : Rests A (Gen.setContext frame g) :=
  modifyFrame (fun _ _ => rfl) (fun _ _ => rfl) fun _ _ _ h => h

theorem settle : Rests A (Gen.settle frame) := ⟨.settle frame, (Quiets.settle frame).calms⟩

theorem shadowing (identifier name : Value) (entity : String) :
    Rests A (Check.shadowing frame identifier name entity) :=
  rests_judges.shadowing ⟨.hiddenBy frame name,
    (Quiets.hiddenBy frame name).calms⟩ identifier entity

theorem takeTemp : Rests A (Message.takeTemp frame) :=
  ⟨.takeTemp frame, fun _ hs => ⟨hs.modify fun _ hf => hf, rfl⟩⟩

theorem dropTemp : Rests A (Message.dropTemp frame) :=
  modifyFrame (fun _ _ => rfl) (fun _ _ => rfl) fun _ _ _ h => h

end Rests

/-! ### Parts of nodes -/

namespace Then

variable {H : History A p.buffer} {Q : GenState → Prop} {k : List Value → Gen β}

/-- A part of a node is written. -/
theorem field (ht : Fits A (.tree t)) {m : Value → Gen α} {k : α → Gen β}
    (hm : ∀ {x}, Fits A x → Puts A p (m x) [] (x.tally A o))
    (hk : ∀ a, Then A p H (w ++ []) (n + t.tallyOf A o name) (k a) Q) :
    Then A p H w n (Gen.field t name >>= fun x => m x >>= k) Q :=
  ofOption fun _ hx => bind (hm (ht.field hx)) (Tree.tallyOf_of_get? hx ▸ hk)

theorem items (hv : Fits A v)
    (hk : ∀ vs, v.items? = some vs → (∀ x ∈ vs, Fits A x) → Then A p H w n (k vs) Q) :
    Then A p H w n (Gen.items v >>= k) Q :=
  ofOption fun vs hvs => hk vs hvs fun _ hx => hv.item hvs hx

theorem fieldItems (ht : Fits A (.tree t))
    (hk : ∀ vs, (t.get? name).bind Value.items? = some vs → (∀ x ∈ vs, Fits A x) →
      Then A p H w n (k vs) Q) : Then A p H w n (Gen.fieldItems t name >>= k) Q := by
  unfold Gen.fieldItems
  rw [bind_assoc]
  refine ofOption fun v hv => items (ht.field hv) fun vs hvs => hk vs ?_
  rw [hv, Option.bind_some, hvs]

theorem itemsIfTrue (hv : Fits A v) (hk : ∀ vs, (∀ x ∈ vs, Fits A x) →
      (∀ o, v.tally A o = (vs.map (Value.tally A o)).sum) → Then A p H w n (k vs) Q) :
    Then A p H w n (Gen.itemsIfTrue v >>= k) Q := by
  unfold Gen.itemsIfTrue
  split
  · exact items hv fun vs hvs hfits => hk vs hfits fun _ => Value.tally_items? hvs
  · rename_i hfalse
    exact hk [] (by simp) fun _ => Value.tally_of_not_truthy (by simpa using hfalse)

theorem errorNote {about earlier : Value} {message text : String} {k : Unit → Gen β}
    (hk : Then A p H w n (k ()) Q) :
    Then A p H w n (Gen.error about message >>= fun _ => Gen.note earlier text >>= k) Q := by
  have hall := rest (rests_judges.errorNote about message earlier text) fun _ => hk
  rwa [bind_assoc] at hall

end Then

/-! ### Formatted texts -/

namespace Puts

variable {type : String}

theorem field (ht : Fits A (.tree t)) {m : Value → Gen α}
    (hm : ∀ {x}, Fits A x → Puts A p (m x) [] (x.tally A o)) :
    Puts A p (Gen.field t name >>= m) [] (t.tallyOf A o name) :=
  .start <| .ofOption fun _ hx => .last (hm (ht.field hx)) rfl fun _ =>
    by simp [Tree.tallyOf_of_get? hx]

theorem formattedAt {key : String} (location : Option Location) {x : Value}
    (hx : A.clear → SameBrackets (x.text?.getD "").toList w)
    (hkey : "before-" ++ key ≠ "before" ∧ "after-" ++ key ≠ "before") :
    Puts A p (Gen.formattedAt p.buffer type x key location) w 0 :=
  .start <| .seq (hook type hkey.1) <| .seq (emit rfl rfl hx) <| .last_of (hook type hkey.2)
    (fun _ => by simpa using .refl _) (by simp)

theorem formatted {x key : String}
    (hkey : "before-" ++ key ≠ "before" ∧ "after-" ++ key ≠ "before") :
    Puts A p (Gen.formatted p.buffer type x key) x.toList 0 :=
  formattedAt none (fun _ => .refl _) hkey

theorem leftParens (type : String) : Puts A p (Gen.leftParens p.buffer type) ['('] 0 :=
  formatted (x := "(") (by decide)

theorem rightParens (type : String) : Puts A p (Gen.rightParens p.buffer type) [')'] 0 :=
  formatted (x := ")") (by decide)

theorem comma (type : String) : Puts A p (Gen.comma p.buffer type) [] 0 :=
  (formatted (x := ",") (by decide)).conv (fun _ => .of_residue rfl) fun _ => rfl

theorem operator (type : String) {x : Value} (hx : A.clear → x.Clear) :
    Puts A p (Gen.operator p.buffer type x) [] 0 := by
  refine formattedAt none (fun hclear => ?_) (by decide)
  cases htext : x.text? with
  | none => exact .refl _
  | some r => exact (Value.clear_text? (hx hclear) htext).nests

theorem bracketAt {x : String} (count : Nat) (location : Option Location) :
    Puts A p (Gen.bracketAt p.buffer type x name count location) x.toList 0 :=
  .start <| .seq (hookOf type fun _ => rfl) <| .seq (textAt location fun _ => .refl _) <|
    .last_of (hookOf type fun _ => rfl) (fun _ => by simpa using .refl _) (by simp)

/-! ### Parts -/

theorem parenthesized {body : Walk} (hbody : Puts A (site.spot o) (body site) [] n)
    (type : String) : Puts A (site.spot o) (Gen.parenthesized type body site) [] n :=
  .start <| .seq (leftParens type) <| .seq hbody <| .last (rightParens type) rfl (by simp)

theorem sourceComment (span : Span) : Puts A p (Gen.sourceComment p.buffer span) [] 0 := by
  unfold Gen.sourceComment Gen.sourceText
  simp only [bind_assoc]
  refine .start <| .look fun s hs _ => ?_
  cases hsource : s.settings.source with
  | none => exact .done _ rfl (by simp)
  | some source =>
    dsimp only
    split
    · exact .done _ rfl (by simp)
    · -- with a source text the brackets are of no interest
      have hclear (h : A.clear) : False := by
        rw [hs.sane.source h] at hsource
        cases hsource
      exact .only (textAt (w := []) _ fun h => (hclear h).elim)

theorem closeFrame (frame : FrameId) : Puts A p (Gen.closeFrame frame p.buffer) [] 0 := by
  refine .start <| .look fun s _ _ => ?_
  dsimp only
  split
  · exact .done _ rfl (by simp)
  refine .seq (template fun _ => .refl _) <| .seq (text (w := []) fun _ => ?_) <|
    .last verbatim rfl (by simp)
  refine Nests.intercalate nests_comma fun r hr => ?_
  obtain ⟨i, _, rfl⟩ := List.mem_map.1 hr
  exact (isClear_tempName _).nests

theorem within (type : String) (role : StatementRole) {body : Gen Unit} (h : Puts A p body w n) :
    Puts A p (Gen.within type role body) w n :=
  .start <| .idle (Rests.ancestry _) <| .seq h <| .last_of (Rests.ancestry _).puts
    (fun _ => by simpa using .refl _) (by simp)

theorem enclose (htype : type ∈ partTitles) (role : StatementRole) {body : Walk}
    (h : Puts A (Site.spot { site with type } o) (body { site with type }) [] n) :
    Puts A (site.spot o) (Gen.enclose type role body site) [] n :=
  within type role <| .start <| .seq (hookOf type fun _ => by simp [Instr.isOpening, htype]) <|
    .seq h <| .last (hook type (by decide)) rfl (by simp)

theorem between {separator : Gen Unit} {write : Value → Gen Unit} {c : Value → Multiset Tree}
    {vs : List Value} (hseparator : Puts A p separator [] 0)
    (hwrite : ∀ v ∈ vs, Puts A p (write v) [] (c v)) :
    Puts A p (Gen.between separator write vs) [] (vs.map c).sum := by
  induction vs with
  | nil => exact .pure _
  | cons v rest ih =>
    have hv := hwrite v (.head _)
    cases rest with
    | nil => exact hv.conv (fun _ => .refl _) fun _ => by simp
    | cons x rest =>
      exact .start <| .seq hv <| .seq hseparator <|
        .last (ih fun y hy => hwrite y (.tail _ hy)) rfl (by simp)

theorem forM {write : Value → Gen Unit} {c : Value → Multiset Tree} {vs : List Value}
    (hwrite : ∀ v ∈ vs, Puts A p (write v) [] (c v)) :
    Puts A p (vs.forM write) [] (vs.map c).sum := by
  induction vs with
  | nil => exact .pure _
  | cons v rest ih =>
    exact .start <| .seq (hwrite v (.head _)) <|
      .last (ih fun x hx => hwrite x (.tail _ hx)) rfl (by simp)

section Walks

variable (hw : Writes A walk)

include hw

theorem inTurn {vs : List Value} (hvs : ∀ v ∈ vs, Fits A v) :
    Puts A (site.spot o) (Gen.inTurn walk vs site) [] (vs.map (Value.tally A o)).sum :=
  forM fun v hv => hw.plain (hvs v hv)

theorem dependent (hv : Fits A v) :
    Puts A (site.spot o) (Gen.dependent walk v site) [] (v.tally A o) := by
  unfold Gen.dependent
  split
  · exact hw.plain hv
  · exact .start <| .seq indent <| .seq (hw.plain hv) <| .last dedent rfl (by simp)

theorem operand (hv : Fits A v) (parent : Tree) (right : Bool) :
    Puts A (site.spot o) (Gen.operand walk parent v right site) [] (v.tally A o) := by
  refine .start <| .rest (rests_judges.treeOf v) fun t => .ofOption fun needed _ => ?_
  split
  · exact .only (parenthesized (hw.plain hv) _)
  · exact .only (hw.plain hv)

theorem separated {vs : List Value} (hvs : ∀ v ∈ vs, Fits A v) :
    Puts A (site.spot o) (Gen.separated walk vs site) [] (vs.map (Value.tally A o)).sum :=
  between (comma _) fun v hv => hw.plain (hvs v hv)

end Walks

end Puts

end ObjectiveJ
