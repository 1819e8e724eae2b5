import ObjectiveJ.Text.Basic
import ObjectiveJ.Text.Case
import ObjectiveJ.Tree.Schema

/-!
# Building syntax trees

Shorthands that make nodes from names and parts, for tools that need a program without a parser.
A shorthand is called by name with arguments in order, arguments by name, or both. A text stands
for an identifier wherever a name is expected, and a pair of numbers under `at` gives the place of
a node in the file `test.j`.

`build?` evaluates an expression of such calls.
-/

namespace ObjectiveJ.Build

def file : String := "test.j"

def pair? (v : Value) : Option (Value × Value) :=
  match v.items? with
  | some [a, b] => some (a, b)
  | _ => none

def span? (place : Value) : Option Span :=
  if !place.truthy then some {}
  else match place.sequence? with
    | some (line :: column :: _) => some { location := some { file := .str file, line, column } }
    | _ => none

def node? (type : NodeType) (place : Value) (fields : List (String × Value)) : Option Value := do
  return .tree (Schema.make type (← span? place) fields)

def bare (type : NodeType) (fields : List (String × Value)) : Value :=
  .tree (Schema.make type {} fields)

/-- The identifier of a name; nothing and an identifier stay as they are. -/
def identifierAt? (name place : Value) : Option Value :=
  match name with
  | .null => some .null
  | .tree t =>
    if t.type = .identifier then some name else node? .identifier place [("name", name)]
  | name => node? .identifier place [("name", name)]

def identifier (name : Value) : Value := (identifierAt? name .null).getD .null

def named : Value → Value
  | .str s => identifier (.str s)
  | v => v

def identifiers? (names : Value) : Option (List Value) := do
  return (← names.items?).map identifier

def placeOf? : Value → Option Span
  | .tree t => some { location := t.span.location }
  | _ => none

def orNothing (names : List Value) : Value := if names.isEmpty then .null else .list names

def block? (body : Value) : Option Value := do
  return bare .blockStatement [("body", .list (← body.items?))]

def literal? (value raw place : Value) : Option Value :=
  node? .literal place [("value", value), ("raw", if raw.truthy then raw else .str "")]

/-- A declared type; whether it is a class is given, or shown by a capital at the start. -/
def type? (name isClass protocols place : Value) : Option Value := do
  let isClass ← match isClass, name with
    | .null, .str s => some (.bool ((s.toList.head?.map Text.isUpperCase).getD false))
    | .null, _ => none
    | given, _ => some given
  node? .objectiveJType place
    [("name", name), ("is_class", isClass), ("protocols", orNothing (← identifiers? protocols))]

def typeOf? (name : Value) : Option Value :=
  if name.truthy then type? name .null (.tuple []) .null else some .null

/-- The parts of a selector: what stands before each colon, or all of it if it has no colon. An
empty part before a colon is nothing. -/
def selectorParts (selector : String) : List Value :=
  let cs := selector.toList
  if ':' ∈ cs then
    (Text.split ':' cs).dropLast.map fun part =>
      if part.isEmpty then .null else identifier (.str (String.ofList part))
  else [identifier (.str selector)]

/-- The parts of the selector of a message. A list or an object in the place of the selector is one
part, unless it has a colon in it. -/
def messageParts? : Value → Option (List Value)
  | .str selector => some (selectorParts selector)
  | v => do
    if (← v.items?).any fun item => item.isText ":" then none else some [identifier v]

def declarator? (declaration : Value) : Option Value := do
  let (name, init) ← match declaration with
    | .tuple [name, init] => some (name, init)
    | .tuple _ => none
    | name => some (name, .null)
  let id := identifier name
  return .tree (Schema.make .variableDeclarator (← placeOf? id) [("id", id), ("init", init)])

def parameter? (param : Value) : Option Value := do
  let (type, name) ← match param with
    | .tuple [type, name] => some (type, name)
    | .tuple _ => none
    | name => some (.null, name)
  let id := identifier name
  return .tree (Schema.make .methodParameter (← placeOf? id)
    [("type", ← typeOf? type), ("id", id)])

def property? (entry : Value) : Option Value := do
  let (key, value) ← pair? entry
  return bare .property [("key", identifier key), ("value", value)]

/-- The arguments of a call, by name, and those that follow the named ones. -/
structure Arguments where
  named : List (String × Value)
  rest : List Value

def Arguments.get (a : Arguments) (name : String) : Value := (a.named.lookup name).getD .null

/-- What a shorthand takes: parameters in order, of which some have a value if none is given, any
number of further arguments if it takes them, and parameters that are given by name only. -/
structure Signature where
  required : List String := []
  optional : List (String × Value) := []
  takesRest : Bool := false
  byName : List (String × Value) := [("at", .null)]

namespace Signature

/-- The arguments of a call by the names of the parameters: every required one is given, none is
given twice, and none is unknown. -/
def bind? (s : Signature) (args : List Value) (byName : List (String × Value)) :
    Option Arguments := do
  let inOrder := s.required ++ s.optional.map (·.1)
  let known := inOrder ++ s.byName.map (·.1)
  let placed := inOrder.zip args
  guard (s.takesRest || args.length ≤ inOrder.length)
  guard (byName.all fun (name, _) => known.contains name && (placed.lookup name).isNone)
  let given := placed ++ byName
  guard (s.required.all fun name => (given.lookup name).isSome)
  return { named := given ++ s.optional ++ s.byName, rest := args.drop inOrder.length }

end Signature

structure Shorthand where
  signature : Signature
  make? : Arguments → Option Value

/-- A shorthand with all parameters in order, the last one of which gives the place. -/
def placed (required : List String) (optional : List (String × Value))
    (make? : Arguments → Option Value) : Shorthand where
  signature := { required, optional := optional ++ [("at", .null)], byName := [] }
  make?

def plain (type : NodeType) (required : List String) (optional : List (String × Value)) :
    Shorthand :=
  placed required optional fun a => node? type (a.get "at")
    ((required ++ optional.map (·.1)).map fun field => (field, a.get field))

def function? (type : NodeType) (a : Arguments) : Option Value := do
  node? type (a.get "at")
    [("id", identifier (a.get "name")), ("params", .list (← identifiers? (a.get "params"))),
      ("body", ← block? (a.get "body"))]

def collecting (type : NodeType) (field : String) (f : Value → Value) : Shorthand where
  signature := { takesRest := true }
  make? a := node? type (a.get "at") [(field, .list (a.rest.map f))]

def shorthands : List (String × Shorthand) := [
  ("location",
    { signature :=
        { required := ["line"],
          optional := [("column", .int 1), ("filename", .str file)], byName := [] }
      make? := fun a => some (.location
        { file := a.get "filename", line := a.get "line", column := a.get "column" }) }),
  ("ident", placed ["name"] [] fun a => identifierAt? (a.get "name") (a.get "at")),
  ("program",
    { signature := { takesRest := true, byName := [] }
      make? := fun a => some (bare .program [("body", .list a.rest)]) }),
  ("block", collecting .blockStatement "body" id),
  ("stmt", plain .expressionStatement ["expression"] []),
  ("var",
    { signature := { takesRest := true }
      make? := fun a => do
        node? .variableDeclaration (a.get "at")
          [("declarations", .list (← a.rest.mapM declarator?))] }),
  ("ret", plain .returnStatement [] [("argument", .null)]),
  ("if_stmt", plain .ifStatement ["test", "consequent"] [("alternate", .null)]),
  ("while_stmt", plain .whileStatement ["test", "body"] []),
  ("for_stmt", plain .forStatement ["init", "test", "update", "body"] []),
  ("debugger", plain .debuggerStatement [] []),
  ("func_decl",
    placed ["name"] [("params", .tuple []), ("body", .tuple [])] (function? .functionDeclaration)),
  ("lit", placed ["value"] [("raw", .null)] fun a =>
    literal? (a.get "value") (a.get "raw") (a.get "at")),
  ("string", placed ["value"] [] fun a =>
    let text := (a.get "value").display
    literal? (a.get "value") (.str s!"@\"{text}\"") (a.get "at")),
  ("this", plain .thisExpression [] []),
  ("assign", placed ["left", "right"] [("operator", .str "=")] fun a =>
    node? .assignmentExpression (a.get "at")
      [("operator", a.get "operator"), ("left", named (a.get "left")), ("right", a.get "right")]),
  ("binary", plain .binaryExpression ["operator", "left", "right"] []),
  ("logical", plain .logicalExpression ["operator", "left", "right"] []),
  ("unary", plain .unaryExpression ["operator", "argument"] []),
  ("update", plain .updateExpression ["operator", "argument"] [("prefix", .bool false)]),
  ("call",
    { signature := { required := ["callee"], takesRest := true }
      make? := fun a => node? .callExpression (a.get "at")
        [("callee", named (a.get "callee")), ("arguments", .list a.rest)] }),
  ("member", placed ["obj", "prop"] [("computed", .bool false)] fun a =>
    let property := a.get "prop"
    node? .memberExpression (a.get "at")
      [("object", named (a.get "obj")),
        ("property", if (a.get "computed").truthy then property else named property),
        ("computed", a.get "computed")]),
  ("func_expr",
    placed [] [("params", .tuple []), ("body", .tuple []), ("name", .null)]
      (function? .functionExpression)),
  ("obj",
    { signature := { takesRest := true }
      make? := fun a => do
        node? .objectExpression (a.get "at")
          [("properties", .list (← a.rest.mapM property?))] }),
  ("array", collecting .arrayExpression "elements" id),
  ("objj_type",
    placed [] [("name", .str "id"), ("is_class", .null), ("protocols", .tuple [])] fun a =>
      type? (a.get "name") (a.get "is_class") (a.get "protocols") (a.get "at")),
  ("accessors",
    { signature :=
        { optional :=
            [("property", .null), ("getter", .null), ("setter", .null),
              ("readonly", .bool false), ("copy", .bool false)],
          byName := [] }
      make? := fun a => some (.accessors (identifier (a.get "property"))
        (identifier (a.get "getter")) (identifier (a.get "setter")) (a.get "readonly")
        (.bool false) (a.get "copy")) }),
  ("ivar",
    placed ["name"]
      [("type_name", .str "id"), ("accessors", .null), ("is_outlet", .bool false)] fun a => do
      let id ← identifierAt? (a.get "name") (a.get "at")
      node? .ivarDeclaration (a.get "at")
        [("type", ← type? (a.get "type_name") .null (.tuple []) .null), ("id", id),
          ("accessors", a.get "accessors"), ("is_outlet", a.get "is_outlet")]),
  ("method",
    placed ["selector"]
      [("params", .tuple []), ("body", .tuple []), ("method_type", .str "-"),
        ("return_type", .null), ("action", .bool false)] fun a => do
      let .str selector := a.get "selector" | none
      let params ← (← (a.get "params").items?).mapM parameter?
      let body ← if (a.get "body").isNull then some .null else block? (a.get "body")
      node? .methodDeclaration (a.get "at")
        [("method_type", a.get "method_type"),
          ("action", if (a.get "action").truthy then bare .actionType [] else .null),
          ("return_type", ← typeOf? (a.get "return_type")),
          ("selectors", .list (selectorParts selector)), ("params", .list params),
          ("body", body)]),
  ("class_decl",
    { signature :=
        { required := ["name"], optional := [("superclass", .null)],
          byName :=
            [("category", .null), ("protocols", .tuple []), ("ivars", .tuple []),
              ("body", .tuple []), ("at", .null)] }
      make? := fun a => do
        node? .classDeclaration (a.get "at")
          [("name", identifier (a.get "name")), ("superclass", identifier (a.get "superclass")),
            ("category", identifier (a.get "category")),
            ("protocols", orNothing (← identifiers? (a.get "protocols"))),
            ("ivars", .list (← (a.get "ivars").items?)),
            ("body", .list (← (a.get "body").items?))] }),
  ("protocol_decl",
    placed ["name"]
      [("protocols", .tuple []), ("required", .tuple []), ("optional", .tuple [])] fun a => do
      node? .protocolDeclaration (a.get "at")
        [("name", identifier (a.get "name")),
          ("protocols", orNothing (← identifiers? (a.get "protocols"))),
          ("required", .list (← (a.get "required").items?)),
          ("optional", .list (← (a.get "optional").items?))]),
  ("send",
    { signature :=
        { required := ["receiver", "selector"], takesRest := true,
          byName := [("var_args", .null), ("at", .null)] }
      make? := fun a => do
        let receiver := match a.get "receiver" with
          | .str s => if s = "super" then bare .superReceiver [] else identifier (.str s)
          | v => v
        let parts ← messageParts? (a.get "selector")
        let varArgs ← if (a.get "var_args").isNull then some .null
          else ((a.get "var_args").items?).map .list
        node? .messageSendExpression (a.get "at")
          [("receiver", receiver), ("selectors", .list parts),
            ("args", .list a.rest), ("var_args", varArgs)] }),
  ("import_stmt", placed ["path"] [("local", .bool true)] fun a => do
    let path := (a.get "path").display
    node? .importStatement (a.get "at")
      [("filename", ← literal? (a.get "path") (.str s!"\"{path}\"") .null),
        ("local", a.get "local")]),
  ("class_stmt", collecting .classStatement "ids" identifier),
  ("global_stmt", collecting .globalStatement "ids" identifier),
  ("typedef_stmt", collecting .typeDefStatement "ids" identifier),
  ("array_literal", collecting .arrayLiteral "elements" id),
  ("dictionary_literal",
    { signature := { takesRest := true }
      make? := fun a => do
        let pairs ← a.rest.mapM pair?
        node? .dictionaryLiteral (a.get "at")
          [("keys", .list (pairs.map (·.1))), ("values", .list (pairs.map (·.2)))] }),
  ("selector_literal", plain .selectorLiteralExpression ["selector"] []),
  ("protocol_literal", placed ["name"] [] fun a =>
    node? .protocolLiteralExpression (a.get "at") [("protocol", identifier (a.get "name"))]),
  ("ref", placed ["name"] [] fun a =>
    node? .reference (a.get "at") [("ref", identifier (a.get "name"))]),
  ("deref", placed ["expression"] [] fun a =>
    node? .dereference (a.get "at") [("ref", named (a.get "expression"))])]

def call? (name : String) (args : List Value) (byName : List (String × Value)) : Option Value := do
  let shorthand ← shorthands.lookup name
  shorthand.make? (← shorthand.signature.bind? args byName)

inductive Expr where
  | value (v : Value)
  | items (es : List Expr)
  | call (name : String) (args : List Expr) (byName : List (String × Expr))

mutual

def build? : Expr → Option Value
  | .value v => some v
  | .items es => (buildItems? es).map .tuple
  | .call name args byName => do call? name (← buildItems? args) (← buildNamed? byName)

def buildItems? : List Expr → Option (List Value)
  | [] => some []
  | e :: rest => do return (← build? e) :: (← buildItems? rest)

def buildNamed? : List (String × Expr) → Option (List (String × Value))
  | [] => some []
  | (name, e) :: rest => do return (name, ← build? e) :: (← buildNamed? rest)

end

end ObjectiveJ.Build
