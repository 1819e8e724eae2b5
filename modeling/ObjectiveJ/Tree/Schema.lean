import ObjectiveJ.Tree.Basic

/-!
# The fields of nodes

The fields of every type of node, in order, with the value a field has when it is not given.
-/

namespace ObjectiveJ.Schema

def none : Value := .null

def items : Value := .list []

def fields : NodeType → List (String × Value)
  | .program | .blockStatement => [("body", items)]
  | .expressionStatement => [("expression", none)]
  | .emptyStatement | .debuggerStatement | .thisExpression | .actionType | .superReceiver => []
  | .withStatement => [("object", none), ("body", none)]
  | .returnStatement | .throwStatement => [("argument", none)]
  | .labeledStatement => [("label", none), ("body", none)]
  | .breakStatement | .continueStatement => [("label", none)]
  | .ifStatement | .conditionalExpression =>
    [("test", none), ("consequent", none), ("alternate", none)]
  | .switchStatement => [("discriminant", none), ("cases", items)]
  | .switchCase => [("test", none), ("consequent", items)]
  | .tryStatement => [("block", none), ("handler", none), ("finalizer", none)]
  | .catchClause => [("param", none), ("body", none)]
  | .whileStatement => [("test", none), ("body", none)]
  | .doWhileStatement => [("body", none), ("test", none)]
  | .forStatement => [("init", none), ("test", none), ("update", none), ("body", none)]
  | .forInStatement => [("left", none), ("right", none), ("body", none)]
  | .functionDeclaration | .functionExpression =>
    [("id", none), ("params", items), ("body", none)]
  | .variableDeclaration => [("declarations", items), ("kind", .str "var")]
  | .variableDeclarator => [("id", none), ("init", none)]
  | .identifier => [("name", .str "")]
  | .literal => [("value", none), ("raw", .str "")]
  | .arrayExpression | .arrayLiteral => [("elements", items)]
  | .objectExpression => [("properties", items)]
  | .property => [("key", none), ("value", none), ("kind", .str "init")]
  | .sequenceExpression => [("expressions", items)]
  | .unaryExpression => [("operator", .str ""), ("prefix", .bool true), ("argument", none)]
  | .updateExpression => [("operator", .str "++"), ("prefix", .bool false), ("argument", none)]
  | .binaryExpression | .logicalExpression =>
    [("operator", .str ""), ("left", none), ("right", none)]
  | .assignmentExpression => [("operator", .str "="), ("left", none), ("right", none)]
  | .callExpression | .newExpression => [("callee", none), ("arguments", items)]
  | .memberExpression => [("object", none), ("property", none), ("computed", .bool false)]
  | .objectiveJType => [("name", .str "id"), ("is_class", .bool false), ("protocols", none)]
  | .ivarDeclaration =>
    [("type", none), ("id", none), ("accessors", none), ("is_outlet", .bool false)]
  | .methodParameter => [("type", none), ("id", none)]
  | .methodDeclaration =>
    [("method_type", .str "-"), ("action", none), ("return_type", none), ("selectors", items),
      ("params", items), ("takes_var_args", .bool false), ("body", none)]
  | .classDeclaration =>
    [("name", none), ("superclass", none), ("category", none), ("protocols", none),
      ("ivars", items), ("body", items)]
  | .protocolDeclaration =>
    [("name", none), ("protocols", none), ("required", items), ("optional", items)]
  | .importStatement => [("filename", none), ("local", .bool true)]
  | .classStatement | .globalStatement | .typeDefStatement => [("ids", items)]
  | .messageSendExpression =>
    [("receiver", none), ("selectors", items), ("args", items), ("var_args", none)]
  | .dictionaryLiteral => [("keys", items), ("values", items)]
  | .selectorLiteralExpression => [("selector", .str "")]
  | .protocolLiteralExpression => [("protocol", none)]
  | .reference | .dereference => [("ref", none)]

/-- A name in words joined by underscores, written with inner capitals. -/
def camelCase : List Char → List Char
  | '_' :: c :: rest =>
    if c.isLower then c.toUpper :: camelCase rest else '_' :: camelCase (c :: rest)
  | c :: rest => c :: camelCase rest
  | [] => []

def key (field : String) : String := String.ofList (camelCase field.toList)

def make (type : NodeType) (span : Span) (given : List (String × Value)) : Tree :=
  { type, span
    fields := (fields type).map fun (field, value) => (field, (given.lookup field).getD value) }

end ObjectiveJ.Schema
