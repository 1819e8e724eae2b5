import ObjectiveJ.Generate.Walk
import ObjectiveJ.Proofs.Law.Declaration

/-!
# Laws for the forms of nodes

A law that allows nodes around what it allows, and the code of declarations, allows the code of
every form (`Law.Walks.form`) but for those that open a frame for variables or take temps.
-/

namespace ObjectiveJ

open Gen

/-- The types of nodes that open a frame for variables or take a temp. -/
def scopedTypes : List NodeType := [
  .program, .functionDeclaration, .functionExpression, .methodDeclaration, .messageSendExpression,
  .arrayLiteral, .dictionaryLiteral]

namespace Law

variable {L : Law} {t : Tree} {site : Site}

theorem selectorLiteral : L.Allows site.frame (Message.selectorLiteral t site) :=
  L.bind (fieldPart _) fun _ => textAt ..

theorem protocolLiteral : L.Allows site.frame (Message.protocolLiteral t site) := by
  refine L.bind (fieldPart _) fun protocol => L.bind (part ..) fun name => ?_
  refine L.get (fun _ _ hs => by rw [hs.symbols]) fun s => L.bind (key _) fun k => ?_
  split
  · exact textAt ..
  · exact L.bind ((L.judges _).unknownProtocol _) fun _ => L.error ..

theorem Walks.form {walk : Walker} (hw : L.Walks walk) (he : L.Parental → L.Encloses)
    (hd : L.Declarations) (ht : L.Owns t)
    (hp : Ancestry.isParent t.type.name = true → L.Parental) (htype : t.type ∉ scopedTypes) :
    L.Allows site.frame (compileForm walk t site) := by
  unfold compileForm
  cases h : t.type with
  | program | functionDeclaration | functionExpression | methodDeclaration
  | messageSendExpression | arrayLiteral | dictionaryLiteral => simp [scopedTypes, h] at htype
  | blockStatement => exact hw.block ht
  | expressionStatement => exact hw.expressionStatement ht
  | emptyStatement => exact empty
  | debuggerStatement => exact debugger
  | withStatement => exact hw.control ht _ _
  | returnStatement => exact hw.returning ht
  | labeledStatement => exact hw.labeled ht
  | breakStatement => exact jump _
  | continueStatement => exact jump _
  | ifStatement =>
    have hp : L.Parental := hp (by rw [h]; rfl)
    exact hw.branch ht hp (he hp)
  | switchStatement => exact hw.switch ht (he (hp (by rw [h]; rfl)))
  | throwStatement => exact hw.throwing ht
  | tryStatement => exact hw.trying ht
  | whileStatement => exact hw.control ht _ _
  | doWhileStatement => exact hw.doWhile ht
  | forStatement => exact hw.forLoop ht
  | forInStatement => exact hw.forIn ht
  | variableDeclaration => exact hw.vars ht
  | importStatement => exact importing
  | classStatement => exact hd.announce _ ht (by rw [h]; rfl)
  | globalStatement => exact hd.announce _ ht (by rw [h]; rfl)
  | typeDefStatement => exact hd.announce _ ht (by rw [h]; rfl)
  | identifier => exact identifierForm ht
  | literal => exact literal
  | thisExpression => exact this
  | arrayExpression => exact hw.array ht
  | objectExpression => exact hw.object ht
  | sequenceExpression => exact hw.sequence ht
  | unaryExpression => exact hw.unary ht
  | updateExpression => exact hw.update ht
  | binaryExpression => exact hw.binary ht
  | logicalExpression => exact hw.binary ht
  | assignmentExpression => exact hw.assignment ht
  | conditionalExpression => exact hw.conditional ht
  | callExpression => exact hw.call ht
  | newExpression => exact hw.construct ht
  | memberExpression => exact hw.member ht
  | reference => exact reference
  | dereference => exact hw.dereference ht
  | selectorLiteralExpression => exact selectorLiteral
  | protocolLiteralExpression => exact protocolLiteral
  | classDeclaration => exact hd.classDeclaration hw ht h
  | protocolDeclaration => exact hd.protocolDeclaration hw ht h
  | switchCase | catchClause | variableDeclarator | property | objectiveJType | actionType
  | ivarDeclaration | methodParameter | superReceiver => exact L.throw _ _ rfl

end Law

end ObjectiveJ
