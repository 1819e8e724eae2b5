import ObjectiveJ.Proofs.Code.Accessor
import ObjectiveJ.Proofs.Code.Gather
import ObjectiveJ.Proofs.Code.Message

/-!
# What methods write

A method writes its function into the buffer for its kind, between the parentheses of its entry. The
body stands in a frame of its own. An optional method of a protocol is recorded and writes nothing.
-/

namespace ObjectiveJ

open Gen Text

variable {selector : Value} {params types : List Value}

variable {A : Account} {p : Spot} {o : Bool} {v : Value} {t : Tree} {walk : Walker} {site : Site}
  {frame : FrameId} {s : GenState} {α β : Type}

/-! ### Types -/

namespace Gives

theorem mapM {f : α → Gen β} {P : β → Prop} {xs : List α} (hf : ∀ x ∈ xs, Gives A (f x) P) :
    Gives A (xs.mapM f) fun ys => ∀ y ∈ ys, P y := by
  induction xs with
  | nil => exact .pure fun _ => List.forall_mem_nil P
  | cons x xs ih =>
    rw [List.mapM_cons]
    refine .bind (hf x (.head _)) fun y hy => ?_
    refine .bind (ih fun z hz => hf z (.tail _ hz)) fun ys hys => ?_
    exact .pure fun hclear => List.forall_mem_cons.2 ⟨hy hclear, hys hclear⟩

theorem fieldItems {name : String} {k : List Value → Gen β} {P : β → Prop} (ht : Fits A (.tree t))
    (hk : ∀ vs, (∀ x ∈ vs, Fits A x) → Gives A (k vs) P) :
    Gives A (Gen.fieldItems t name >>= k) P := by
  unfold Gen.fieldItems
  rw [bind_assoc]
  exact .ofOption fun v hv => .ofOption fun vs hvs => hk vs fun _ hx => (ht.field hv).item hvs hx

theorem typeName {ifAbsent : String} (habsent : IsClear ifAbsent.toList) (hv : A.clear → v.Clear) :
    Gives A (Declaration.typeName v ifAbsent) Value.Clear := by
  unfold Declaration.typeName
  split
  · exact .pure fun _ => Value.clear_str.2 habsent
  · refine .ofOption fun name hname => .ofOption fun protocols _ => .skip fun _ => ?_
    exact .pure fun hclear => Value.clear_part? (hv hclear) hname

theorem methodTypes (ht : Fits A (.tree t)) :
    Gives A (Declaration.methodTypes t) fun types => ∀ v ∈ types, v.Clear := by
  refine .ofOption fun returnType hreturn => .ofOption fun action _ => ?_
  refine .bind (.typeName (by split <;> decide) (ht.field hreturn).clear) fun result hresult => ?_
  refine .fieldItems ht fun params hparams =>
    .bind (.mapM (P := Value.Clear) fun param hparam => ?_) fun rest hrest => ?_
  · exact .ofOption fun type htype =>
      .typeName (by decide) ((hparams param hparam).part htype).clear
  · exact .pure fun hclear => List.forall_mem_cons.2 ⟨hresult hclear, hrest hclear⟩

end Gives

theorem GenState.Sane.nests_className (hs : s.Sane A) (hclear : A.clear) (frame : FrameId) :
    Nests ((((s.frames.currentClass frame).bind s.symbols.class?).map (·.name.display)).getD
      "None") := by
  cases hclass : (s.frames.currentClass frame).bind s.symbols.class? with
  | none => exact .of_residue rfl
  | some c =>
    obtain ⟨id, hid, hc⟩ := Option.bind_eq_some_iff.1 hclass
    obtain ⟨⟨_, f⟩, hmem, hf⟩ := List.exists_of_findSome?_eq_some hid
    have hface := hs.faces hclear _ f.face
      (by rw [Frames.face?, Frames.frame?_of_mem_chain hmem]; rfl)
    exact Value.nests_display _ ((hs.symbols hclear).classes id c (hface.ofClass id hf) hc).name

/-! ### The head of a method -/

theorem Rests.recordMethod (kind : MethodKind) (selector : Value) (types : List Value)
    (owner : MethodOwner) : Rests A (Declaration.recordMethod t kind selector types owner) :=
  ⟨steady_methods.recordMethod _ _ _ _ _, (quiets_records.methods.recordMethod _ _ _ _ _).calms⟩

theorem Rests.checkSetters (selector : Value) (id : Option ClassId) :
    Rests A (Declaration.checkSetters t selector id) := by
  cases id with
  | none => exact rests_judges.pure _
  | some id => exact rests_judges.setterConflicts ..

namespace Puts

theorem methodParams (frame : FrameId) {vs : List Value} (hvs : ∀ v ∈ vs, Fits A v) :
    Puts A p (Declaration.methodParams frame p.buffer vs) [] 0 := by
  induction vs with
  | nil => exact .pure _
  | cons v rest ih =>
    have ih := ih fun x hx => hvs x (.tail _ hx)
    refine .start <| .ofOption fun identifier hidentifier => .seq verbatim ?_
    refine .ofOption fun name hname => ?_
    refine .seq (writeAt _ (((hvs v (.head _)).part hidentifier).part hname).clear) ?_
    split
    · exact .idle (rests_judges.error ..) <| .last ih rfl (by simp)
    · refine .idle (.shadowing ..) <| .rest (rests_judges.key name) fun key => ?_
      exact .idle (rests_judges.declare ..) <| .last ih rfl (by simp)

theorem methodName {className : String} (hclass : A.clear → Nests className)
    (hselector : A.clear → selector.Clear) :
    Puts A p (Declaration.methodName className selector p.buffer) [] 0 := by
  refine .start <| .look fun s _ _ => ?_
  split
  · refine .ofOption fun shown hshown => .only (text (w := []) fun hclear => ?_)
    have hshown := (Value.clear_text? (hselector hclear) hshown).nests
    exact Nests.append (.of_residue rfl) (Declaration.nests_functionName (hclass hclear) hshown)
  · exact .done _ rfl (by simp)

theorem methodHead (frame : FrameId) (hselector : A.clear → selector.Clear)
    (hparams : ∀ v ∈ params, Fits A v) :
    Puts A p (Declaration.methodHead selector params frame p.buffer site) [] 0 := by
  refine .start <| .seq (template fun _ => .refl _) <| .look fun s hs _ => ?_
  refine .seq (methodName (fun hclear => hs.sane.nests_className hclear _) hselector) ?_
  refine .seq verbatim <| .idle (rests_judges.declare ..) ?_
  refine .idle (rests_judges.declare ..) <| .seq (methodParams frame hparams) ?_
  exact .last verbatim rfl (by simp)

theorem signature (htypes : A.clear → ∀ v ∈ types, v.Clear) :
    Puts A p (Declaration.signature types p.buffer) [] 0 := by
  refine .start <| .look fun s _ _ => ?_
  split
  · refine .only (continuedAt (w := []) _ fun hclear => ?_)
    exact (Declaration.nests_quotedList (htypes hclear)).between (.of_residue rfl)
  · exact .done _ rfl (by simp)

end Puts

/-! ### Methods -/

/-- What counts in a method, which has no code if it is optional. -/
def Tree.tallyOfMethod (A : Account) (o : Bool) (t : Tree) : Multiset Tree :=
  if o then 0 else t.tallyOf A o "body"

section Walks

variable (hw : Writes A walk)

include hw

namespace Puts

variable (ht : Fits A (.tree t)) (htype : t.type = .methodDeclaration)

include ht htype

theorem methodCode {b : Nat} {marker : Value} (hmarker : A.clear → marker.Clear)
    (hselector : A.clear → selector.Clear) (htypes : A.clear → ∀ v ∈ types, v.Clear)
    (hparams : ∀ v ∈ params, Fits A v) :
    Puts A ⟨b, frame, o⟩ (Declaration.methodCode walk t marker selector types params frame site) []
      (t.tallyOf A o "body") := by
  have hresult (hclear : A.clear) : Nests (types.headD .null).display := by
    cases types with
    | nil => exact .of_residue rfl
    | cons type rest => exact Value.nests_display _ (htypes hclear type (.head _))
  have hshown (hclear : A.clear) := Value.nests_display _ (hselector hclear)
  unfold Declaration.methodCode Declaration.methodStart
  simp only [bind_assoc, pure_bind]
  refine .startMethod fun c => .start <|
    .bind (templateAt (w := ['(']) _ fun hclear => ?_) fun _ => ?_
  · exact .trans (((((((Value.nests_display _ (hmarker hclear)).around).texts
      (hresult hclear)).texts (.refl _)).texts (hshown hclear)).texts (.refl _)).texts
      (hshown hclear).around) (.of_residue rfl)
  refine .ofOption fun body hbody => ?_
  have hend : Puts A ⟨c, frame, o⟩ (do
      Declaration.signature types c
      Gen.text c ")") [')'] 0 :=
    .start <| .seq (signature htypes) <| .last verbatim rfl (by simp)
  split
  · rename_i hnull
    refine .seq verbatim <| .last hend rfl fun _ => ?_
    simp [Tree.tallyOf_of_get? hbody, Value.tally_of_isNull hnull]
  · rename_i hbodied
    have hblock (honce : A.once) : (Manner.body false).suits body = true := by
      have hgrammar := ht.grammatical honce
      rw [Tree.isGrammatical, htype] at hgrammar
      simpa [Manner.suits, hbodied] using Tree.fieldIs_of_get? hgrammar hbody
    refine .seq (methodHead frame hselector hparams) ?_
    refine .seq (hw (.body false) body { site with frame, buffer := c } o (ht.field hbody)
      hblock) ?_
    exact .last hend rfl fun _ => by simp [Tree.tallyOf_of_get? hbody]

theorem methodOf {owner : MethodOwner} (howner : owner.optionalMethods = o) :
    Puts A (site.spot o) (Declaration.methodOf walk t owner site) [] (t.tallyOfMethod A o) := by
  refine .start <| .ofOption fun marker hmarker => ?_
  refine .rest_gives (rests_judges.methodTypes t) (.methodTypes ht) fun types htypes => ?_
  refine .fieldItems ht fun params _ hparams => .ofOption fun selectors hselectors => ?_
  refine .rest_gives (rests_judges.selector ..) (.selector (ht.field hselectors).clear)
    fun selector hselector => ?_
  refine .idle (.checkSetters ..) <| .newScope rfl rfl rfl fun frame => ?_
  have hend : Puts A ⟨site.buffer, frame, o⟩ (do
      Declaration.recordMethod t (.ofMarker marker) selector types owner
      Gen.settle frame) [] 0 :=
    .start <| .idle (.recordMethod ..) <| .only (Rests.settle _).puts
  dsimp only
  split
  · rename_i hwritten
    obtain rfl : o = false := by rw [← howner]; simpa using hwritten
    have hcode : Puts A ⟨site.buffer, frame, false⟩
        (Declaration.writeMethod walk t marker selector types params frame site) []
        (t.tallyOf A false "body") :=
      .start <| .seq indent <|
        .seq (methodCode hw ht htype (ht.field hmarker).clear hselector htypes hparams) <|
        .last dedent rfl (by simp)
    exact .seq hcode <| .last hend rfl fun _ => by simp [Tree.tallyOfMethod]
  · rename_i hwritten
    obtain rfl : o = true := by rw [← howner]; simpa using hwritten
    exact .last hend rfl fun _ => by simp [Tree.tallyOfMethod]

theorem method : Puts A (site.spot o) (Declaration.method walk t site) []
    (t.tallyOfMethod A o) := by
  refine .start <| .look fun s _ hp => .ofOption fun owner howner => ?_
  dsimp only
  split
  · exact .fatalAt _ _ _
  · rename_i hknown
    obtain ⟨f, hf, rfl⟩ := Option.map_eq_some_iff.1 howner
    obtain ⟨face, hface, hoptional⟩ := hp.face
    obtain rfl : f.face = face := by
      rw [Frames.face?, hf] at hface
      exact Option.some.inj hface
    refine .only (methodOf hw ht htype (hoptional ?_))
    rw [Bool.and_eq_true, not_and_or, Bool.not_eq_true, Bool.not_eq_true,
      Option.isNone_eq_false_iff, Option.isNone_eq_false_iff] at hknown
    exact hknown

end Puts

end Walks

end ObjectiveJ
