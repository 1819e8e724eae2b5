import ObjectiveJ.Proofs.Code.Enclose

/-!
# What functions write

A function writes its head and its body, which stands in a frame of its own.
-/

namespace ObjectiveJ

open Gen Text

variable {id : Value}

variable {A : Account} {o : Bool} {v : Value} {t : Tree} {walk : Walker} {site : Site}
  {inner frame : FrameId}

theorem Rests.declareParams (outer inner : FrameId) (vs : List Value) :
    Rests A (Function.declareParams outer inner vs) := by
  induction vs with
  | nil => exact rests_judges.pure _
  | cons v rest ih =>
    refine rests_judges.bind (rests_judges.part ..) fun name => .look fun s => ?_
    dsimp only
    split
    · exact rests_judges.seq (rests_judges.error ..) ih
    · refine rests_judges.seq (.shadowing ..) <|
        rests_judges.bind (rests_judges.key name) fun key => ?_
      exact rests_judges.seq (rests_judges.declare ..) ih

theorem Rests.isLambda (body : Value) : Rests A (Function.isLambda t body site) := by
  unfold Function.isLambda
  split
  · exact rests_judges.pure _
  · refine rests_judges.bind (rests_judges.part ..) fun v =>
      rests_judges.bind (rests_judges.items v) fun _ => ?_
    exact .look fun s => rests_judges.pure _

theorem Rests.name? (id : Value) : Rests A (Function.name? id) := by
  unfold Function.name?
  split
  · exact rests_judges.pure _
  · exact rests_judges.bind (rests_judges.part ..) fun _ => rests_judges.pure _

theorem Gives.functionName (hid : A.clear → id.Clear) :
    Gives A (Function.name? id) fun name => ∀ x ∈ name, x.Clear := by
  unfold Function.name?
  split
  · exact .pure fun _ => nofun
  · refine .ofOption fun x hx => .pure fun hclear y hy => ?_
    cases hy
    exact Value.clear_part? (hid hclear) hx

theorem Rests.copyIvarRefs (id : FrameId) : Rests A (modifyFrames (·.copyIvarRefs id)) :=
  ⟨.copyIvarRefs id, (Quiets.copyIvarRefs id).calms⟩

namespace Puts

theorem writeParam (hv : Fits A v) :
    Puts A ⟨site.buffer, frame, o⟩ (Function.writeParam site v) [] 0 :=
  .start <| .ofOption fun _ hname => .only (writeAt _ (hv.part hname).clear)

theorem writeParams (hvs : ∀ v ∈ vs, Fits A v) :
    Puts A ⟨site.buffer, frame, o⟩ (Function.writeParams vs site) [] 0 :=
  .start <| .seq (leftParens _) <|
    .seq (between (c := fun _ => 0) (comma _) fun v hv => writeParam (hvs v hv)) <|
      .last (rightParens _) rfl (by simp)

theorem writeGlobal {name : Value} (hname : A.clear → name.Clear) (isGlobal : Bool) :
    Puts A ⟨site.buffer, frame, o⟩ (Function.writeGlobal id name isGlobal site) [] 0 := by
  unfold Function.writeGlobal
  split
  · exact .start <| .seq (writeAt _ hname) <|
      .last (operator _ fun _ => Value.clear_str.2 (by decide)) rfl (by simp)
  · exact .pure _

theorem declareName {name : Value} (hname : A.clear → name.Clear) (isGlobal : Bool) :
    Puts A ⟨site.buffer, frame, o⟩ (Function.declareName t id name isGlobal inner site) [] 0 := by
  have hwrite : Puts A ⟨site.buffer, frame, o⟩ (Function.writeGlobal id name isGlobal site) [] 0 :=
    writeGlobal hname isGlobal
  unfold Function.declareName
  dsimp only
  split
  · exact .start <| .rest (rests_judges.key name) fun _ => .idle (rests_judges.declare ..) <|
      .only hwrite
  · exact .start <| .rest (rests_judges.key name) fun _ => .idle (rests_judges.declare ..) <|
      .only hwrite

theorem functionHead {name : Option Value} (ht : Fits A (.tree t))
    (hname : A.clear → ∀ x ∈ name, x.Clear) :
    Puts A ⟨site.buffer, frame, o⟩ (Function.head t id name inner site) [] 0 := by
  refine .start <| .fieldItems ht fun params _ hparams => .idle (.declareParams ..) <|
    .look fun s _ _ => ?_
  cases name with
  | none => exact .seq (nested _ rfl) <| .seq (writeParams hparams) <| .done _ rfl (by simp)
  | some name =>
    have hname (hclear : A.clear) := hname hclear name rfl
    refine .seq (declareName hname _) ?_
    refine .seq (nested _ rfl) <| .ofOption fun shown hshown => ?_
    refine .seq (text fun hclear => (SameBrackets.refl _).texts
      (Value.clear_text? (hname hclear) hshown).nests) ?_
    exact .seq (writeParams hparams) <| .done _ rfl (by simp)

theorem functionTail (isGlobal : Bool) (name : Option Value) :
    Puts A ⟨site.buffer, frame, o⟩ (Function.tail isGlobal name inner site) [] 0 := by
  have hend : Puts A ⟨site.buffer, frame, o⟩ (do
      modifyFrames (·.copyIvarRefs inner)
      Gen.settle inner) [] 0 :=
    .start <| .idle (.copyIvarRefs _) <| .only (Rests.settle _).puts
  unfold Function.tail
  split
  · exact .start <| .seq verbatim <| .last hend rfl (by simp)
  · exact hend

theorem function (hw : Writes A walk) (ht : Fits A (.tree t))
    (htype : t.type = .functionDeclaration ∨ t.type = .functionExpression) :
    Puts A (site.spot o) (Function.compile walk t site) [] (t.tallyOf A o "body") := by
  refine .start <| .ofOption fun id hid => ?_
  refine .rest_gives (.name? id) (.functionName (ht.field hid).clear) fun name hname => ?_
  refine .newScope rfl rfl rfl fun inner => ?_
  refine .bind (functionHead ht hname) fun isGlobal => .ofOption fun body hbody => ?_
  refine .rest (.isLambda _) fun lambda => ?_
  have hblock (honce : A.once) : (Manner.body lambda).suits body = true := by
    have hgrammar := ht.grammatical honce
    rcases htype with htype | htype <;>
    · rw [Tree.isGrammatical, htype] at hgrammar
      exact Tree.fieldIs_of_get? hgrammar hbody
  refine .seq (hw (.body lambda) body { site with frame := inner } o (ht.field hbody) hblock) ?_
  exact .last (functionTail _ _) rfl fun _ => by simp [Tree.tallyOf_of_get? hbody]

end Puts

end ObjectiveJ
