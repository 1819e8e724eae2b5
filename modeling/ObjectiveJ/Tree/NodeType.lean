/-!
# Types of nodes

The types of the nodes of a program. Those whose names start with `objj_` are the ones of
Objective-J, the others those of JavaScript.
-/

namespace ObjectiveJ

inductive NodeType where
  | program
  | blockStatement
  | expressionStatement
  | emptyStatement
  | debuggerStatement
  | withStatement
  | returnStatement
  | labeledStatement
  | breakStatement
  | continueStatement
  | ifStatement
  | switchStatement
  | switchCase
  | throwStatement
  | tryStatement
  | catchClause
  | whileStatement
  | doWhileStatement
  | forStatement
  | forInStatement
  | functionDeclaration
  | variableDeclaration
  | variableDeclarator
  | identifier
  | literal
  | thisExpression
  | arrayExpression
  | objectExpression
  | property
  | functionExpression
  | sequenceExpression
  | unaryExpression
  | updateExpression
  | binaryExpression
  | logicalExpression
  | assignmentExpression
  | conditionalExpression
  | callExpression
  | newExpression
  | memberExpression
  | objectiveJType
  | actionType
  | ivarDeclaration
  | methodParameter
  | methodDeclaration
  | classDeclaration
  | protocolDeclaration
  | importStatement
  | classStatement
  | globalStatement
  | typeDefStatement
  | superReceiver
  | messageSendExpression
  | arrayLiteral
  | dictionaryLiteral
  | selectorLiteralExpression
  | protocolLiteralExpression
  | reference
  | dereference
  deriving Repr, DecidableEq, Inhabited

namespace NodeType

def name : NodeType → String
  | program => "Program"
  | blockStatement => "BlockStatement"
  | expressionStatement => "ExpressionStatement"
  | emptyStatement => "EmptyStatement"
  | debuggerStatement => "DebuggerStatement"
  | withStatement => "WithStatement"
  | returnStatement => "ReturnStatement"
  | labeledStatement => "LabeledStatement"
  | breakStatement => "BreakStatement"
  | continueStatement => "ContinueStatement"
  | ifStatement => "IfStatement"
  | switchStatement => "SwitchStatement"
  | switchCase => "SwitchCase"
  | throwStatement => "ThrowStatement"
  | tryStatement => "TryStatement"
  | catchClause => "CatchClause"
  | whileStatement => "WhileStatement"
  | doWhileStatement => "DoWhileStatement"
  | forStatement => "ForStatement"
  | forInStatement => "ForInStatement"
  | functionDeclaration => "FunctionDeclaration"
  | variableDeclaration => "VariableDeclaration"
  | variableDeclarator => "VariableDeclarator"
  | identifier => "Identifier"
  | literal => "Literal"
  | thisExpression => "ThisExpression"
  | arrayExpression => "ArrayExpression"
  | objectExpression => "ObjectExpression"
  | property => "Property"
  | functionExpression => "FunctionExpression"
  | sequenceExpression => "SequenceExpression"
  | unaryExpression => "UnaryExpression"
  | updateExpression => "UpdateExpression"
  | binaryExpression => "BinaryExpression"
  | logicalExpression => "LogicalExpression"
  | assignmentExpression => "AssignmentExpression"
  | conditionalExpression => "ConditionalExpression"
  | callExpression => "CallExpression"
  | newExpression => "NewExpression"
  | memberExpression => "MemberExpression"
  | objectiveJType => "objj_ObjectiveJType"
  | actionType => "objj_ActionType"
  | ivarDeclaration => "objj_IvarDeclaration"
  | methodParameter => "objj_MethodParameter"
  | methodDeclaration => "objj_MethodDeclaration"
  | classDeclaration => "objj_ClassDeclaration"
  | protocolDeclaration => "objj_ProtocolDeclaration"
  | importStatement => "objj_ImportStatement"
  | classStatement => "objj_ClassStatement"
  | globalStatement => "objj_GlobalStatement"
  | typeDefStatement => "objj_TypeDefStatement"
  | superReceiver => "Super"
  | messageSendExpression => "objj_MessageSendExpression"
  | arrayLiteral => "objj_ArrayLiteral"
  | dictionaryLiteral => "objj_DictionaryLiteral"
  | selectorLiteralExpression => "objj_SelectorLiteralExpression"
  | protocolLiteralExpression => "objj_ProtocolLiteralExpression"
  | reference => "objj_Reference"
  | dereference => "objj_Dereference"

def title (t : NodeType) : String :=
  match t.name.toList with
  | 'o' :: 'b' :: 'j' :: 'j' :: '_' :: rest => String.ofList rest
  | _ => t.name

def all : List NodeType := [
  program, blockStatement, expressionStatement, emptyStatement, debuggerStatement, withStatement,
  returnStatement, labeledStatement, breakStatement, continueStatement, ifStatement,
  switchStatement, switchCase, throwStatement, tryStatement, catchClause, whileStatement,
  doWhileStatement, forStatement, forInStatement, functionDeclaration, variableDeclaration,
  variableDeclarator, identifier, literal, thisExpression, arrayExpression, objectExpression,
  property, functionExpression, sequenceExpression, unaryExpression, updateExpression,
  binaryExpression, logicalExpression, assignmentExpression, conditionalExpression, callExpression,
  newExpression, memberExpression, objectiveJType, actionType, ivarDeclaration, methodParameter,
  methodDeclaration, classDeclaration, protocolDeclaration, importStatement, classStatement,
  globalStatement, typeDefStatement, superReceiver, messageSendExpression, arrayLiteral,
  dictionaryLiteral, selectorLiteralExpression, protocolLiteralExpression, reference, dereference]

def ofName? (name : String) : Option NodeType := all.find? (·.name = name)

end NodeType

end ObjectiveJ
