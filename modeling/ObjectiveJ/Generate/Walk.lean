import ObjectiveJ.Generate.Declaration
import ObjectiveJ.Generate.Expression
import ObjectiveJ.Generate.Function
import ObjectiveJ.Generate.Statement
import ObjectiveJ.Tree.Height

/-!
# The walk

The forms of nodes are compiled one by one elsewhere, each with a way to compile the parts of the
node. `step` picks the form by the type of a node, and `walk` ties the knot: it takes one step, and
goes on from there to the parts. A program of some height needs no more steps than that.
`generate` runs the walk on a program.
-/

namespace ObjectiveJ

open Gen (enclose incomplete)

/-- A part of another node that stands where a node is compiled. -/
def misplaced (t : Tree) : Gen Unit :=
  throw (.uncompilable (match t.type with
    | .ivarDeclaration => "instance variable declaration outside of a class body"
    | type => "cannot compile a " ++ type.name ++ " node here"))

def compileForm (walk : Walker) (t : Tree) : Walk :=
  match t.type with
  | .program => Statement.program walk t
  | .blockStatement => Statement.block walk t false
  | .expressionStatement => Statement.expression walk t
  | .emptyStatement => Statement.empty t
  | .debuggerStatement => Statement.debugger t
  | .withStatement => Statement.control walk t "with" "object"
  | .returnStatement => Statement.returning walk t
  | .labeledStatement => Statement.labeled walk t
  | .breakStatement => Statement.jump t "break"
  | .continueStatement => Statement.jump t "continue"
  | .ifStatement => Statement.branch walk t
  | .switchStatement => Statement.switch walk t
  | .throwStatement => Statement.throwing walk t
  | .tryStatement => Statement.trying walk t
  | .whileStatement => Statement.control walk t "while" "test"
  | .doWhileStatement => Statement.doWhile walk t
  | .forStatement => Statement.forLoop walk t
  | .forInStatement => Statement.forIn walk t
  | .variableDeclaration => Statement.vars walk t
  | .importStatement => Statement.importing t
  | .classStatement => Statement.announce t "class"
  | .globalStatement => Statement.announce t "global"
  | .typeDefStatement => Statement.announce t "typedef"
  | .functionDeclaration => Function.compile walk t
  | .functionExpression => Function.compile walk t
  | .identifier => Expression.identifier t
  | .literal => Expression.literal t
  | .thisExpression => Expression.this t
  | .arrayExpression => Expression.array walk t
  | .objectExpression => Expression.object walk t
  | .sequenceExpression => Expression.sequence walk t
  | .unaryExpression => Expression.unary walk t
  | .updateExpression => Expression.update walk t
  | .binaryExpression => Expression.binary walk t
  | .logicalExpression => Expression.binary walk t
  | .assignmentExpression => Expression.assignment walk t
  | .conditionalExpression => Expression.conditional walk t
  | .callExpression => Expression.call walk t
  | .newExpression => Expression.construct walk t
  | .memberExpression => Expression.member walk t
  | .reference => Expression.reference t
  | .dereference => Expression.dereference walk t
  | .messageSendExpression => Message.send walk t
  | .arrayLiteral => Message.arrayLiteral walk t
  | .dictionaryLiteral => Message.dictionaryLiteral walk t
  | .selectorLiteralExpression => Message.selectorLiteral t
  | .protocolLiteralExpression => Message.protocolLiteral t
  | .classDeclaration => Declaration.classDeclaration walk t
  | .protocolDeclaration => Declaration.protocolDeclaration walk t
  | .methodDeclaration => Declaration.method walk t
  | .switchCase | .catchClause | .variableDeclarator | .property | .objectiveJType | .actionType
  | .ivarDeclaration | .methodParameter | .superReceiver => fun _ => misplaced t

def layoutType (t : Tree) : Manner → String
  | .elseIf => "ElseIfStatement"
  | .body true => "Lambda"
  | .plain | .body false => t.type.name

def compileAs (walk : Walker) (t : Tree) : Manner → Walk
  | .plain => compileForm walk t
  | .elseIf => Statement.branch walk t
  | .body _ => Statement.block walk t true

def step (walk : Walker) : Walker := fun manner v site =>
  match v with
  | .tree t => enclose (layoutType t manner) (Gen.roleOf t) (compileAs walk t manner) site
  | _ => incomplete

/-- Compiles a node whose parts are at most so deep. -/
def walk : Nat → Walker
  | 0 => fun _ _ _ => incomplete
  | n + 1 => step (walk n)

/-- Compiles a program. Warnings that are still parked at its end are kept. -/
def generate (program : Value) : Gen Unit := do
  let root ← Gen.newFrame { kind := .global }
  walk program.height .plain program { frame := root }
  Gen.closeFrame root 0
  Gen.modifyFrames (·.setParked root [])

end ObjectiveJ
