import ObjectiveJ.Tree.Basic

/-!
# Precedence of expressions

Parentheses are not part of the syntax: they are written where a part of an expression binds more
loosely than the expression around it. Lower numbers bind tighter.
-/

namespace ObjectiveJ.Precedence

def operators : List (String × Int) := [
  ("*", 3), ("/", 3), ("%", 3),
  ("+", 4), ("-", 4),
  ("<<", 5), (">>", 5), (">>>", 5),
  ("<", 6), ("<=", 6), (">", 6), (">=", 6), ("in", 6), ("instanceof", 6),
  ("==", 7), ("!=", 7), ("===", 7), ("!==", 7),
  ("&", 8),
  ("^", 9),
  ("|", 10),
  ("&&", 11),
  ("||", 12)]

def ofOperator (op : String) : Int := (operators.lookup op).getD (-1)

/-- How tightly the operator of a node binds. One that is no text is unknown, and a node without
an operator has an unknown one; an operator without a key cannot be looked for. -/
def ofNode? (t : Tree) : Option Int := do
  let op ← ((t.get? "operator").getD .null).key?
  return (op.text?.map ofOperator).getD (-1)

def ofType : NodeType → Int
  | .callExpression => 1
  | .newExpression => 2
  | .functionExpression => 3
  | .unaryExpression => 4
  | .updateExpression => 4
  | .binaryExpression => 5
  | .logicalExpression => 6
  | .conditionalExpression => 7
  | .assignmentExpression => 8
  | _ => -1

def isBinary (type : NodeType) : Bool := type = .binaryExpression ∨ type = .logicalExpression

/-- The answer to whether a part of an expression needs parentheses; `right` marks it as the right
operand of a binary expression. If the operators leave the answer to the mark, a false mark is the
answer. -/
def answer? (node part : Tree) (right : Json) : Option Json := do
  let outer := ofType node.type
  let inner := ofType part.type
  if outer < inner then return .bool true
  if outer ≠ inner ∨ !isBinary node.type then return .bool false
  let outerOp ← ofNode? node
  let innerOp ← ofNode? part
  if outerOp < innerOp then return .bool true
  return if right.truthy then .bool (innerOp = outerOp) else right

def needsParens? (node part : Tree) (right : Bool) : Option Bool :=
  (answer? node part (.bool right)).map Json.truthy

end ObjectiveJ.Precedence
