import ObjectiveJ.Tree.Basic

/-!
# Nodes without a place

Nodes that are put together by hand, without a place in the source.
-/

namespace ObjectiveJ.Value

def node (type : NodeType) (fields : List (String × Value)) : Value :=
  .tree { type, span := {}, fields }

def name (text : String) : Value := node .identifier [("name", .str text)]

def assign (left right : Value) : Value :=
  node .assignmentExpression [("operator", .str "="), ("left", left), ("right", right)]

def send (receiver : Value) (selector : String) (args : List Value) : Value :=
  node .messageSendExpression [("receiver", receiver), ("selectors", .list [name selector]),
    ("args", .list args), ("var_args", .null)]

def statement (expression : Value) : Value :=
  node .expressionStatement [("expression", expression)]

def declarator (id : String) (init : Value) : Value :=
  node .variableDeclarator [("id", name id), ("init", init)]

def declaration (declarators : List Value) : Value :=
  node .variableDeclaration [("kind", .str "var"), ("declarations", .list declarators)]

def block (statements : List Value) : Value := node .blockStatement [("body", .list statements)]

def function (id : String) (params statements : List Value) : Value :=
  node .functionDeclaration
    [("id", name id), ("params", .list params), ("body", block statements)]

/-- An instance method without parameters. -/
def method (selector : String) (statements : List Value) : Value :=
  node .methodDeclaration [("method_type", .str "-"), ("return_type", .null), ("action", .null),
    ("selectors", .list [name selector]), ("params", .list []), ("body", block statements)]

def classOf (id : String) (superclass category protocols : Value) (ivars body : List Value) :
    Value :=
  node .classDeclaration [("name", name id), ("superclass", superclass), ("category", category),
    ("protocols", protocols), ("ivars", .list ivars), ("body", .list body)]

def program (statements : List Value) : Value := node .program [("body", .list statements)]

end ObjectiveJ.Value
