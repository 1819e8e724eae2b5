import ObjectiveJ.Proofs.Code.Enclose

/-!
# What expressions write

The code of an expression has nested brackets, and the parts of the expression have their code in it
once. The operand of a dereference may be written twice; then it has no effect.
-/

namespace ObjectiveJ

open Gen Text

variable {op x : Value}

variable {A : Account} {p : Spot} {o : Bool} {w : List Char} {n : Multiset Tree}
  {v : Value} {t : Tree} {walk : Walker} {site : Site} {s : GenState} {α β : Type}

/-! ### Names and literals -/

theorem Rests.meaning (frame : FrameId) (name : Value) :
    Rests A (Expression.meaning frame name) := by
  refine .look fun s => ?_
  dsimp only
  split
  · exact rests_judges.pure _
  split
  · exact rests_judges.pure _
  refine rests_judges.bind (rests_judges.key name) fun k => ?_
  repeat' split
  all_goals exact rests_judges.pure _

theorem Rests.selfMayBeNil (frame : FrameId) : Rests A (Expression.selfMayBeNil frame) := by
  refine .look fun s => ?_
  split
  · exact .modifyFrame (fun _ _ => rfl) (fun _ _ => rfl) fun _ _ _ h => h
  · exact rests_judges.pure _

/-- The `self.` before the name of an instance variable is remembered together with the number of
its instruction. -/
theorem Puts.writeSelf (name : Value) (meaning : Expression.Meaning) :
    Puts A (site.spot o) (Expression.writeSelf t name site meaning) [] 0 := by
  cases meaning with
  | ivar key =>
    intro s hs hp
    let ref : IvarRef := { index := s.trace.size, location := t.location }
    have hsteady : Steady A (do
        modifyFrames (·.addIvarRefs site.frame key name [ref])
        Gen.textAt site.buffer "self." t.location) :=
      Steady.bind (.changeFrames (fun _ => Frames.face?_modify fun _ => rfl)
        fun _ _ h => h.of_same fun _ => rfl) fun _ => .emit _
    have hmarked := hsteady s hs.sane
    simp only [Expression.writeSelf, wp_bind, wp_get, modifyFrames, wp_modify] at hmarked ⊢
    refine (hmarked.and (wp_emitted _ _)).mono (fun _ u hu => ?_) fun _ _ _ => trivial
    obtain ⟨⟨hsane, hheld⟩, hu⟩ := hu
    have hcontents : u.contents = s.contents := by
      subst hu
      exact (GenState.contents_push _ _).trans (Contents.exec_of_isSlight _ rfl)
    refine ⟨hs.held hsane hheld ?_ hcontents, .of_kept hheld.kept fun r _ => congrFun hcontents r⟩
    subst hu
    rw [GenState.marks_push]
    refine Frames.RefsIn.addIvarRefs (hs.refs.append _) _ _ _ fun r hr => ?_
    obtain rfl := List.mem_singleton.1 hr
    have hlength : ref.index = s.marks.length := by simp [ref, GenState.marks]
    rw [hlength]
    exact List.getElem?_concat_length ..
  | _ => exact .pure _

theorem Puts.identifier (ht : Fits A (.tree t)) :
    Puts A (site.spot o) (Expression.identifier t site) [] 0 := by
  refine .start <| .ofOption fun name hname => .rest (.meaning ..) fun meaning => ?_
  refine .seq (writeSelf _ _) <| .seq (writeAt _ (ht.field hname).clear) ?_
  refine .idle ?_ <| .only (Rests.setContext ..).puts
  cases meaning with
  | other => exact rests_judges.identifier ..
  | _ => exact rests_judges.pure _

theorem Text.nests_literalText? {value raw : Value} {r : String} (hvalue : value.Clear)
    (hraw : raw.Clear) (h : Expression.literalText? value raw = some r) : Nests r := by
  unfold Expression.literalText? at h
  split at h
  · obtain ⟨x, hx, rfl⟩ := Option.map_eq_some_iff.1 h
    have hclear := Value.clear_text? hraw hx
    split
    · rename_i rest hrest
      rw [hrest] at hclear
      refine IsClear.nests fun c hc => hclear c ?_
      rw [String.toList_ofList] at hc
      exact List.mem_cons_of_mem _ hc
    · exact hclear.nests
  · cases h
    split
    · exact .of_residue rfl
    · rename_i b
      cases b <;> exact .of_residue rfl
    · exact (Json.isClear_quote (Value.clear_str.1 hvalue)).nests
    · exact Value.nests_quoted _ hvalue

theorem Puts.literal (ht : Fits A (.tree t)) :
    Puts A (site.spot o) (Expression.literal t site) [] 0 := by
  refine .start <| .ofOption fun value hvalue => .ofOption fun raw hraw => .ofOption fun r hr => ?_
  exact .only (textAt (w := []) _ fun hclear =>
    nests_literalText? ((ht.field hvalue).clear hclear) ((ht.field hraw).clear hclear) hr)

theorem Puts.this : Puts A (site.spot o) (Expression.this t site) [] 0 :=
  (textAt _ fun _ => .refl _).conv (fun _ => .of_residue rfl) fun _ => rfl

theorem Puts.reference (ht : Fits A (.tree t)) :
    Puts A (site.spot o) (Expression.reference t site) [] 0 := by
  refine .start <| .ofOption fun ref href => .ofOption fun name hname => ?_
  have hshown (hclear : A.clear) :=
    Value.nests_display _ (((ht.field href).part hname).clear hclear)
  exact .only (textAt _ fun hclear =>
    (hshown hclear).around.texts
      ((((hshown hclear).texts (.refl _)).texts (hshown hclear)).texts (.refl _)))

/-! ### Operators -/

theorem Value.clear_applied? (h : op.Clear) (hx : Expression.applied? op = some x) : x.Clear := by
  unfold Expression.applied? at hx
  split at hx
  · cases hx
    rw [Value.clear_str] at h ⊢
    rw [String.toList_ofList]
    exact fun c hc => h c (List.mem_of_mem_dropLast hc)
  · rename_i items
    cases hx
    exact allClear_textsOfItems fun y hy => Value.clear_items? h rfl y (List.mem_of_mem_dropLast hy)
  · rename_i items
    cases hx
    exact allClear_textsOfItems fun y hy => Value.clear_items? h rfl y (List.mem_of_mem_dropLast hy)
  · cases hx

theorem Value.clear_sequence? {items : List Value} (h : op.Clear)
    (hitems : op.sequence? = some items) (hx : items.head? = some x) : x.Clear := by
  refine Value.clear_items? h ?_ x (List.mem_of_head? hx)
  unfold Value.sequence? at hitems
  split at hitems
  · cases hitems
  · exact hitems

theorem Puts.binaryOperator {op : String} (hop : A.clear → IsClear op.toList) :
    Puts A (site.spot o) (Expression.binaryOperator op site) [] 0 := by
  unfold Expression.binaryOperator
  split
  · exact (text fun hclear => (hop hclear).nests.around).conv
      (fun _ => .of_residue rfl) fun _ => rfl
  · exact operator _ fun hclear => Value.clear_str.2 (hop hclear)

/-- The operand of a dereference may be evaluated twice. -/
theorem Then.dereference {H : History A p.buffer} {Q : GenState → Prop} {k : Unit → Gen β}
    (hk : x.idempotent? = some true → Then A p H w n (k ()) Q) :
    Then A p H w n (Check.dereference x >>= k) Q := by
  unfold Check.dereference
  rw [bind_assoc]
  refine .ofOption fun safe hsafe => ?_
  cases safe with
  | true => exact hk hsafe
  | false =>
    simp only [Bool.not_false, if_true, bind_assoc]
    exact .rest (rests_judges.treeOf x) fun _ => .fatalAt _ _ _

theorem Fits.tally_of_idempotent (ht : Fits A (.tree t)) (htype : t.type = .dereference)
    (hv : t.get? "ref" = some v) (h : v.idempotent? = some true) (honce : A.once) :
    v.tally A o = 0 := by
  have hsheltered := (ht.self honce).sheltered
  refine Value.tally_of_idempotent
    (fun u hu => ⟨((ht.field hv).regular honce u hu).grammatical, ?_⟩) h
  refine fun x hx => hsheltered x ?_
  simp only [Tree.sheltered, htype, hv, Option.getD_some]
  exact List.mem_flatMap.2 ⟨u, hu, hx⟩

section Walks

variable (hw : Writes A walk)

include hw

namespace Puts

theorem element (hv : Fits A v) :
    Puts A (site.spot o) (Expression.element walk v site) [] (v.tally A o) := by
  unfold Expression.element
  split
  · rename_i hnull
    exact (Puts.pure _).conv (fun _ => .refl _) fun _ => (Value.tally_of_isNull hnull).symm
  · exact hw.plain hv

theorem property (hp : Fits A v) (hproperty : A.once → v.isNode .property = true) :
    Puts A (site.spot o) (Expression.property walk v site) [] (v.tally A o) := by
  refine .start <| .seq (hook _ (by decide)) <| .idle (.setContext ..) ?_
  refine .ofOption fun key hkey => .seq (hw.plain (hp.part hkey)) ?_
  refine .idle (.setContext ..) <| .seq (formatted (by decide)) ?_
  refine .ofOption fun value hvalue => .last (hw.plain (hp.part hvalue)) rfl fun honce => ?_
  have htally : v.tally A o = v.tallyOf A o "key" + v.tallyOf A o "value" := by
    rw [Value.tally_of_isNode (hproperty honce) fun t h => by simp [Tree.isEffect, h]]
    simp [NodeType.codeParts, NodeType.codeFields]
  simp [htally, Value.tallyOf_of_part? hkey, Value.tallyOf_of_part? hvalue]

theorem firstOf (hv : Fits A v) : Puts A (site.spot o)
    (Gen.parenthesized site.type (walk .plain v) (Expression.firstSite site)) [] (v.tally A o) :=
  have h : Puts A ((Expression.firstSite site).spot o)
      (Gen.parenthesized site.type (walk .plain v) (Expression.firstSite site)) [] (v.tally A o) :=
    parenthesized (hw.plain hv) _
  h

theorem secondOf (hv : Fits A v) : Puts A (site.spot o)
    (walk .plain v (Expression.secondSite site)) [] (v.tally A o) :=
  hw .plain v (Expression.secondSite site) o hv fun _ => rfl

theorem updatedReference {ref : Value} (hop : A.clear → op.Clear) (href : Fits A ref)
    (hv : Fits A v) : Puts A (site.spot o) (Expression.updatedReference walk op ref v site) []
      (ref.tally A o + v.tally A o) := by
  refine .start <| .seq (firstOf hw href) <| .seq (leftParens _) <| .seq (secondOf hw hv) ?_
  refine .ofOption fun ops hops => .ofOption fun first hfirst => ?_
  refine .seq (operator _ fun hclear => Value.clear_sequence? (hop hclear) hops hfirst) ?_
  exact .seq verbatim <| .last (rightParens _) rfl (by simp)

/-- The operand of a dereference is written twice, but has no effect. -/
theorem updateReference (isPrefix : Bool) {d : Tree} (hop : A.clear → op.Clear)
    (hd : Fits A (.tree d)) (htype : d.type = .dereference) :
    Puts A (site.spot o) (Expression.updateReference walk t op (.tree d) isPrefix site) []
      ((Value.tree d).tally A o) := by
  refine .start <| .ofOption fun ref href => .dereference fun hidempotent => ?_
  have hzero (honce : A.once) : ref.tally A o = 0 :=
    hd.tally_of_idempotent htype href hidempotent honce
  have hcall : Puts A (site.spot o) (Expression.updatedReference walk op ref (.tree d) site) _ _ :=
    updatedReference hw hop (hd.field href) hd
  refine .seq (sourceComment _) ?_
  cases isPrefix with
  | true => exact .last hcall rfl fun honce => by simp [hzero honce]
  | false =>
    refine .seq (leftParens _) <| .seq hcall <| .seq (operator _ fun _ => Value.clear_str.2 ?_) ?_
    · split <;> decide
    exact .seq verbatim <| .last (rightParens _) rfl fun honce => by simp [hzero honce]

variable (ht : Fits A (.tree t))

include ht

theorem array : Puts A (site.spot o) (Expression.array walk t site) []
    (t.tallyOf A o "elements") := by
  refine .start <| .fieldItems ht fun vs hitems hvs => .seq (bracketAt _ _) ?_
  refine .seq (between ((bracketAt _ _).conv (fun _ => .of_residue rfl) fun _ => rfl)
    fun v hv => element hw (hvs v hv)) ?_
  exact .last (bracketAt _ _) rfl fun _ => by simp [Tree.tallyOf_items? hitems]

theorem object (htype : t.type = .objectExpression) :
    Puts A (site.spot o) (Expression.object walk t site) [] (t.tallyOf A o "properties") := by
  refine .start <| .ofOption fun ps hps => ?_
  dsimp only
  have hkey (which : String) (hwhich : which = "" ∨ which = "empty-") (side : String)
      (hside : side = "left-brace" ∨ side = "right-brace") :
      "before-" ++ (which ++ side) ≠ "before" ∧ "after-" ++ (which ++ side) ≠ "before" := by
    rcases hwhich with rfl | rfl <;> rcases hside with rfl | rfl <;> decide
  have hwhich : (if ps.truthy then "" else "empty-") = "" ∨ (if ps.truthy then "" else "empty-") =
      "empty-" := by
    split <;> simp
  refine .seq (formattedAt _ (fun _ => .refl _) (hkey _ hwhich _ (.inl rfl))) ?_
  refine .items (ht.field hps) fun vs hitems hvs => ?_
  have hproperty (honce : A.once) : ∀ p ∈ vs, p.isNode .property = true := by
    have hgrammar := ht.grammatical honce
    rw [Tree.isGrammatical, htype] at hgrammar
    exact Tree.itemsAre_mem hgrammar (by rw [hps, Option.bind_some, hitems])
  refine .seq (between (comma _) fun p hp =>
    property hw (hvs p hp) fun honce => hproperty honce p hp) ?_
  refine .last (formatted (hkey _ hwhich _ (.inr rfl))) rfl fun _ => ?_
  simp [Tree.tallyOf_of_get? hps, Value.tally_items? hitems]

theorem sequence :
    Puts A (site.spot o) (Expression.sequence walk t site) [] (t.tallyOf A o "expressions") :=
  .start <| .fieldItems ht fun _ hitems hvs => .last (separated hw hvs) rfl
    fun _ => by simp [Tree.tallyOf_items? hitems]

theorem unary : Puts A (site.spot o) (Expression.unary walk t site) []
    (t.tallyOf A o "argument") := by
  refine .start <| .ofOption fun op hop => .seq (writeAt _ (ht.field hop).clear) ?_
  refine .ofOption fun key _ => ?_
  split
  · exact .seq verbatim <| .last (.field ht (operand hw · _ _)) rfl (by simp)
  · exact .only (.field ht (operand hw · _ _))

theorem arguments :
    Puts A (site.spot o) (Expression.arguments walk t site) [] (t.tallyOf A o "arguments") := by
  refine .start <| .ofOption fun args hargs => .seq (hook _ (by decide)) ?_
  refine .seq verbatim ?_
  split
  · refine .seq (hook _ (by decide)) <| .items (ht.field hargs) fun vs hitems hvs => ?_
    refine .seq (separated hw hvs) <| .seq (hook _ (by decide)) ?_
    refine .seq verbatim <| .last (hook _ (by decide)) rfl fun _ => ?_
    simp [Tree.tallyOf_of_get? hargs, Value.tally_items? hitems]
  · rename_i hfalse
    refine .seq verbatim <| .last (hook _ (by decide)) rfl fun _ => ?_
    simp [Tree.tallyOf_of_get? hargs, Value.tally_of_not_truthy (v := args) (by simpa using hfalse)]

theorem update :
    Puts A (site.spot o) (Expression.update walk t site) [] (t.tallyOf A o "argument") := by
  refine .start <| .ofOption fun op hop => .ofOption fun isPrefix _ => .ofOption fun x hx => ?_
  have hclear := (ht.field hop).clear
  have htally : t.tallyOf A o "argument" = x.tally A o := Tree.tallyOf_of_get? hx
  dsimp only
  split
  · rename_i hnode
    cases x with
    | tree d =>
      exact .last (updateReference hw _ hclear (ht.field hx) (by simpa [Value.isNode] using hnode))
        rfl fun _ => by simp [htally]
    | data | list | tuple | location | accessors => cases hnode
  · have hoperand : Puts A (site.spot o) (Gen.operand walk t x false site) [] (x.tally A o) :=
      operand hw (ht.field hx) _ _
    cases isPrefix.truthy with
    | true =>
      exact .seq (writeAt _ hclear) <| .seq hoperand <| .done _ rfl fun _ => by simp [htally]
    | false =>
      exact .seq hoperand <| .last (writeAt _ hclear) rfl fun _ => by simp [htally]

theorem binary : Puts A (site.spot o) (Expression.binary walk t site) []
      (t.tallyOf A o "left" + t.tallyOf A o "right") := by
  refine .start <| .field ht (operand hw · _ _) fun _ => .ofOption fun op hop =>
    .ofOption fun r hr => ?_
  refine .seq (binaryOperator fun hclear => Value.clear_text? ((ht.field hop).clear hclear) hr) ?_
  exact .last (.field ht (operand hw · _ _)) rfl (by simp)

/-- A dereference that is assigned to is written once more if its value is needed. -/
theorem assignReference {d : Tree} (hop : A.clear → op.Clear)
    (hd : Fits A (.tree d)) (htype : d.type = .dereference) :
    Puts A (site.spot o) (Expression.assignReference walk t op (.tree d) site) []
      ((Value.tree d).tally A o + t.tallyOf A o "right") := by
  refine .start <| .ofOption fun ref href => .dereference fun hidempotent => ?_
  have hfits := hd.field href
  have hzero (honce : A.once) : ref.tally A o = 0 :=
    hd.tally_of_idempotent htype href hidempotent honce
  have htally (honce : A.once) : (Value.tree d).tally A o = 0 := by
    have hshare : A.share d = 0 := A.share_of_not_isEffect (by simp [Tree.isEffect, htype])
    simp [Value.tally_tree, htype, NodeType.codeParts, NodeType.codeFields, hshare,
      Tree.tallyOf_of_get? href, hzero honce]
  refine .seq (sourceComment _) ?_
  dsimp only
  cases op.isText "=" with
  | true =>
    refine .seq (parenthesized (hw.plain hfits) _) <| .seq (leftParens _) ?_
    exact .field ht hw.plain fun _ => .last (rightParens _) rfl fun honce => by
      simp [hzero honce, htally honce]
  | false =>
    refine .seq (firstOf hw hfits) <| .seq (leftParens _) <| .seq (secondOf hw hd) ?_
    refine .ofOption fun x hx => ?_
    refine .seq (operator _ fun hclear => Value.clear_applied? (hop hclear) hx) ?_
    exact .field ht hw.plain fun _ => .last (rightParens _) rfl fun honce => by
      simp [hzero honce, htally honce]

theorem assignment : Puts A (site.spot o) (Expression.assignment walk t site) []
      (t.tallyOf A o "left" + t.tallyOf A o "right") := by
  refine .start <| .ofOption fun op hop => .ofOption fun left hleft => ?_
  have hclear := (ht.field hop).clear
  split
  · rename_i hnode
    cases left with
    | tree d =>
      exact .last (assignReference hw ht hclear (ht.field hleft)
        (by simpa [Value.isNode] using hnode)) rfl fun _ => by simp [Tree.tallyOf_of_get? hleft]
    | data | list | tuple | location | accessors => cases hnode
  · refine .look fun s _ _ => .idle (.setContext ..) ?_
    have hrest {H : History A site.buffer} : Then A (site.spot o) H [] 0 (do
        Gen.operand walk t left false site
        Gen.operator site.buffer site.type op
        setContext site.frame fun c =>
          { c with assignment := (s.frames.context site.frame).assignment }
        Gen.operand walk t (← Gen.field t "right") true site)
        (H.Ends [] (t.tallyOf A o "left" + t.tallyOf A o "right")) := by
      refine .seq (operand hw (ht.field hleft) _ _) <| .seq (operator _ hclear) ?_
      exact .idle (.setContext ..) <| .last (.field ht (operand hw · _ _)) rfl
        fun _ => by simp [Tree.tallyOf_of_get? hleft]
    split
    · exact .idle (.selfMayBeNil _) hrest
    · exact hrest

theorem conditional : Puts A (site.spot o) (Expression.conditional walk t site) []
      (t.tallyOf A o "test" + t.tallyOf A o "consequent" + t.tallyOf A o "alternate") := by
  refine .start <| .field ht (operand hw · _ _) fun _ => ?_
  refine .seq (operator _ fun _ => Value.clear_str.2 (by decide)) <| .field ht hw.plain fun _ => ?_
  exact .seq (operator _ fun _ => Value.clear_str.2 (by decide)) <|
    .last (.field ht hw.plain) rfl (by simp)

theorem construct : Puts A (site.spot o) (Expression.construct walk t site) []
      (t.tallyOf A o "callee" + t.tallyOf A o "arguments") :=
  .start <| .seq (textAt _ fun _ => .refl _) <| .field ht (operand hw · _ _) fun _ =>
    .last (arguments hw ht) rfl (by simp)

theorem call : Puts A (site.spot o) (Expression.call walk t site) []
      (t.tallyOf A o "callee" + t.tallyOf A o "arguments") := by
  refine .start <| .ofOption fun callee hcallee => ?_
  have hcall {H : History A site.buffer} : Then A (site.spot o) H [] 0 (do
      Gen.operand walk t callee false site
      Expression.arguments walk t site)
        (H.Ends [] (t.tallyOf A o "callee" + t.tallyOf A o "arguments")) :=
    .seq (operand hw (ht.field hcallee) _ _) <| .last (arguments hw ht) rfl
      fun _ => by simp [Tree.tallyOf_of_get? hcallee]
  split
  · exact .idle (.selfMayBeNil _) hcall
  · exact hcall

theorem member : Puts A (site.spot o) (Expression.member walk t site) []
      (t.tallyOf A o "object" + t.tallyOf A o "property") := by
  refine .start <| .idle (.setContext ..) <| .field ht (operand hw · _ _) fun _ => ?_
  refine .idle (.setContext ..) ?_
  refine .ofOption fun property hproperty => .ofOption fun computed _ => ?_
  have htally : t.tallyOf A o "property" = property.tally A o := Tree.tallyOf_of_get? hproperty
  split
  · refine .seq (formatted (by decide)) <| .look fun s _ _ => .idle (.setContext ..) ?_
    refine .seq (hw.plain (ht.field hproperty)) <| .idle (.setContext ..) ?_
    exact .last (formatted (by decide)) rfl fun _ => by simp [htally]
  · refine .seq verbatim <| .idle (.setContext ..) ?_
    exact .seq (hw.plain (ht.field hproperty)) <| .last (Rests.setContext ..).puts rfl
      fun _ => by simp [htally]

theorem dereference :
    Puts A (site.spot o) (Expression.dereference walk t site) [] (t.tallyOf A o "ref") :=
  .start <| .ofOption fun ref href => .dereference fun _ => .seq (textAt _ fun _ => .refl _) <|
    .seq (hw.plain (ht.field href)) <| .last verbatim rfl
      fun _ => by simp [Tree.tallyOf_of_get? href]

end Puts

end Walks

end ObjectiveJ
