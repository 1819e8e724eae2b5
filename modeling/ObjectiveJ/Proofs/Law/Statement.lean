import ObjectiveJ.Generate.Statement
import ObjectiveJ.Proofs.Law.Expression

/-!
# Laws for statements

Whatever a law says, it allows the code of the statements of JavaScript, of blocks that close no
frame and of imports.
-/

namespace ObjectiveJ

open Gen

namespace Law

variable {L : Law} {f : FrameId} {t : Tree} {v : Value} {site : Site}

theorem empty : L.Allows site.frame (Statement.empty t site) := textAt ..

theorem jump (keyword : String) : L.Allows site.frame (Statement.jump t keyword site) := by
  refine L.seq (textAt ..) <| L.bind (fieldPart _) fun label => ?_
  split
  · exact L.seq (hook _ _ (by decide)) <| L.bind (part _ _) fun _ => writeAt ..
  · exact L.pure ..

theorem semicolon : L.Allows site.frame (Statement.semicolon site) :=
  L.seq (hook _ _ (by decide)) <| L.seq (text ..) <| hook _ _ (by decide)

theorem debugger : L.Allows site.frame (Statement.debugger t site) :=
  L.seq (textAt ..) <| (L.judges _).warnIf ..

theorem importing : L.Allows site.frame (Statement.importing t site) :=
  L.bind (fieldPart _) fun _ => L.bind (ofOption _) fun _ => L.bind (fieldPart _) fun _ => textAt ..

theorem checkName (identifier name : Value) (key : Key) :
    L.Allows f (Statement.checkName f identifier name key) := by
  unfold Statement.checkName
  dsimp only
  split
  · exact L.warning ..
  refine L.get (fun s s' hs => by rw [hs.isSome_currentMethod]) fun s => ?_
  split
  · exact L.error ..
  · exact L.shadowing ..

namespace Walks

variable {vs : List Value}

variable {walk : Walker} (hw : L.Walks walk)

include hw

theorem caseStatement (he : L.Encloses) (hv : L.Admits v) :
    L.Allows site.frame (Statement.caseStatement walk site v) := by
  have hv : L.Allows site.frame (walk .plain v { site with type := "CaseStatement" }) :=
    hw.plain hv { site with type := "CaseStatement" }
  exact L.seq (discard (treeOf v)) <| he (by simp [tempTypes]) hv

theorem caseBody (he : L.Encloses) (isLast : Bool) (hv : L.Admits v) :
    L.Allows site.frame (Statement.caseBody walk isLast v site) := by
  refine L.seq (formatted _ _ _ (by decide)) <| part_bind hv fun consequent hc => ?_
  split
  · have hinside : L.Allows site.frame (do
        (← Gen.items consequent).forM (Statement.caseStatement walk site)) :=
      items_bind hc fun _ hvs => forM fun v hv => hw.caseStatement he (hvs v hv)
    have hafter : L.Allows site.frame (do
        if !isLast then Gen.hook site.buffer site.type "between-case-blocks") := by
      split
      · exact hook _ _ (by decide)
      · exact L.pure ..
    have hall := shifted_bind .levels hinside fun _ => hafter
    simp only [bind_assoc] at hall
    exact hall
  · exact L.pure ..

theorem case (he : L.Encloses) (isLast : Bool) (hv : L.Admits v) :
    L.Allows site.frame (Statement.case walk isLast v site) := by
  have hbody : L.Allows site.frame (Statement.caseBody walk isLast v site) :=
    hw.caseBody he isLast hv
  refine part_bind hv fun test htest => L.seq (hook _ _ (by decide)) ?_
  dsimp only
  split
  · exact L.seq (textAt ..) hbody
  · exact L.seq (textAt ..) <| L.seq (hw.plain htest site) hbody

theorem cases (he : L.Encloses) (hvs : ∀ v ∈ vs, L.Admits v) :
    L.Allows site.frame (Statement.cases walk vs site) := by
  induction vs with
  | nil => exact L.pure ..
  | cons v rest ih =>
    exact L.seq (hw.case he _ (hvs v (.head _))) <| ih fun w hw => hvs w (.tail _ hw)

theorem catching (hv : L.Admits v) : L.Allows site.frame (Statement.catching walk v site) := by
  refine part_bind hv fun param hparam => L.bind (part ..) fun name => L.bind (key _) fun k => ?_
  refine L.get (fun s s' hs => by rw [hs.localVar]) fun s => ?_
  refine L.seq (L.declare ..) <| L.seq (hook _ _ (by decide)) ?_
  refine L.seq (textAt ..) <| L.seq (leftParens ..) <| L.seq (writeAt ..) ?_
  refine L.seq (rightParens ..) <| part_bind hv fun body hbody => ?_
  refine L.seq (hw.plain hbody site) ?_
  cases s.frames.localVar site.frame k with
  | none => exact L.undeclare ..
  | some w => exact L.declare ..

theorem introduce (kind : VarKind) (id name : Value) (hv : L.Admits v) :
    L.Allows site.frame (Statement.introduce walk kind v id name site) := by
  refine L.bind (key name) fun k => L.seq (checkName id name k) <| L.seq (L.declare ..) ?_
  refine L.seq (writeAt ..) <| part_bind hv fun init hinit => ?_
  split
  · exact L.seq (formatted _ _ _ (by decide)) <| hw.plain hinit site
  · exact L.pure ..

theorem declarator (kind : VarKind) (isFirst : Bool) (hv : L.Admits v) :
    L.Allows site.frame (Statement.declarator walk kind isFirst v site) := by
  refine L.bind (part ..) fun id => L.bind (part ..) fun name => ?_
  cases isFirst with
  | true => exact hw.introduce kind id name hv
  | false => exact L.seq (comma ..) <| hw.introduce kind id name hv

theorem declarators (kind : VarKind) (isFirst : Bool) (hvs : ∀ v ∈ vs, L.Admits v) :
    L.Allows site.frame (Statement.declarators walk kind isFirst vs site) := by
  induction vs generalizing isFirst with
  | nil => exact L.pure ..
  | cons v rest ih =>
    exact L.seq (hw.declarator kind isFirst (hvs v (.head _))) <|
      ih false fun w hw => hvs w (.tail _ hw)

variable (ht : L.Owns t)

include ht

theorem block : L.Allows site.frame (Statement.block walk t false site) := by
  have hbody : L.Allows site.frame (do
      Gen.inTurn walk (← Gen.fieldItems t "body") site) :=
    fieldItems_bind ht fun _ hvs => hw.inTurn hvs
  have hall := L.enclosed .braces site.buffer site.type "\x7b" "\x7d" none hbody
  simp only [bind_assoc] at hall
  exact hall

theorem expressionStatement : L.Allows site.frame (Statement.expression walk t site) :=
  field_bind ht fun _ hv => hw.plain hv site

theorem branch (hp : L.Parental) (he : L.Encloses) :
    L.Allows site.frame (Statement.branch walk t site) := by
  refine L.seq (textAt ..) <| field_bind ht fun test htest => ?_
  refine L.seq (parenthesized hw htest _) <| field_bind ht fun c hc => ?_
  refine L.seq (dependent hw hc) <| field_bind ht fun alternate halternate => ?_
  split
  · exact L.pure ..
  refine L.seq (formatted _ _ _ (by decide)) ?_
  split
  · exact hw .elseIf alternate site (.inr ⟨rfl, hp⟩) halternate
  · have helse : L.Allows { site with type := "ElseStatement" }.frame _ := dependent hw halternate
    exact L.seq (discard (treeOf _)) <| he (by simp [tempTypes]) helse

theorem labeled : L.Allows site.frame (Statement.labeled walk t site) :=
  L.bind (fieldPart _) fun _ => L.bind (part _ _) fun _ => L.seq (writeAt ..) <|
    L.seq (formatted _ _ _ (by decide)) <| field_bind ht fun _ hv => hw.plain hv site

theorem control (keyword head : String) :
    L.Allows site.frame (Statement.control walk t keyword head site) :=
  L.seq (textAt ..) <| field_bind ht fun _ hhead => L.seq (parenthesized hw hhead _) <|
    field_bind ht fun _ hbody => dependent hw hbody

theorem switch (he : L.Encloses) : L.Allows site.frame (Statement.switch walk t site) := by
  refine L.seq (textAt ..) <| field_bind ht fun v hv => ?_
  refine L.seq (parenthesized hw hv _) ?_
  have hbody : L.Allows site.frame (do
      Statement.cases walk (← Gen.fieldItems t "cases") site) :=
    fieldItems_bind ht fun _ hvs => hw.cases he hvs
  have hall := L.enclosed .braces site.buffer site.type "\x7b" "\x7d" none hbody
  simp only [bind_assoc] at hall
  exact hall

theorem returning : L.Allows site.frame (Statement.returning walk t site) := by
  refine field_bind ht fun argument hargument => ?_
  split
  · exact textAt ..
  · exact L.seq (textAt ..) <| hw.plain hargument site

theorem throwing : L.Allows site.frame (Statement.throwing walk t site) :=
  L.seq (textAt ..) <| field_bind ht fun _ hv => hw.plain hv site

theorem finalizing : L.Allows site.frame (Statement.finalizing walk t site) := by
  refine field_bind ht fun finalizer hfinalizer => ?_
  split
  · exact L.seq (hook _ _ (by decide)) <| L.seq (text ..) <| hw.plain hfinalizer site
  · exact L.pure ..

theorem trying : L.Allows site.frame (Statement.trying walk t site) := by
  refine L.seq (textAt ..) <| field_bind ht fun block hblock => ?_
  refine L.seq (hw.plain hblock site) <| field_bind ht fun handler hhandler => ?_
  split
  · exact L.seq (hw.catching hhandler) <| hw.finalizing ht
  · exact hw.finalizing ht

theorem doWhile : L.Allows site.frame (Statement.doWhile walk t site) :=
  L.seq (textAt ..) <| field_bind ht fun _ hbody => L.seq (dependent hw hbody) <|
    L.seq (formatted _ _ _ (by decide)) <| field_bind ht fun _ htest => parenthesized hw htest _

theorem optionalPart (name : String) :
    L.Allows site.frame (Statement.optionalPart walk t name site) := by
  refine field_bind ht fun v hv => ?_
  split
  · exact hw.plain hv site
  · exact L.pure ..

theorem forLoop : L.Allows site.frame (Statement.forLoop walk t site) := by
  refine L.seq (textAt ..) <| L.seq (leftParens ..) ?_
  refine L.seq (hw.optionalPart ht _) <| L.seq semicolon ?_
  refine L.seq (hw.optionalPart ht _) <| L.seq semicolon ?_
  refine L.seq (hw.optionalPart ht _) <| L.seq (rightParens ..) ?_
  exact field_bind ht fun _ hbody => dependent hw hbody

theorem forIn : L.Allows site.frame (Statement.forIn walk t site) := by
  refine L.seq (textAt ..) <| L.seq (leftParens ..) <| field_bind ht fun left hleft => ?_
  refine L.seq (hw.plain hleft site) <| L.seq (formatted _ _ _ (by decide)) ?_
  refine field_bind ht fun right hright => L.seq (hw.plain hright site) ?_
  exact L.seq (rightParens ..) <| field_bind ht fun _ hbody => dependent hw hbody

theorem vars : L.Allows site.frame (Statement.vars walk t site) :=
  L.get (fun s s' hs => by rw [hs.isLocal]) fun s => L.seq (textAt ..) <|
    fieldItems_bind ht fun _ hvs => hw.declarators _ _ hvs

end Walks

end Law

end ObjectiveJ
