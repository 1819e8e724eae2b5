import ObjectiveJ.Key
import ObjectiveJ.Table
import ObjectiveJ.Text.Basic

/-!
# Formats

A format says what stands around each piece of generated code: it gives every type of format node
a table of values. The type `*` holds the values that are used where a type has none of its own.
A *group* gives its values to each type that it lists, and a type belongs to the group that listed
it last. A group may list whatever has a key; only texts are names of types.
-/

namespace ObjectiveJ

structure Format where
  name : String := "<format>"
  data : Table Key (Table String Json) := {}
  groups : Table Key String := {}
  /-- Whether the values of `*` have been given as such. -/
  hasGlobals : Bool := false
  spellings : Table Key Json := {}

inductive FormatError where
  | notAnObject (format : String)
  | entryNotAnObject (format entry : String)
  | unknown (name : String) (available : List String)
  | invalidText
  | unreadable (path reason : String)
  /-- A value that cannot be used where it stands, such as a number for a list of types. -/
  | unusable
  deriving Repr, DecidableEq

namespace FormatError

def message? : FormatError → Option String
  | notAnObject format => some s!"format '{format}' must be a JSON object"
  | entryNotAnObject format entry => some s!"format '{format}': entry '{entry}' must be an object"
  | unknown name available =>
    let list := ", ".intercalate available
    some (s!"no such format '{name}'" ++
      if available.isEmpty then "" else s!"\nAvailable formats: {list}")
  | invalidText => some "invalid JSON in format file"
  | unreadable path reason => some s!"could not read format file '{path}': {reason}"
  | unusable => none

end FormatError

namespace Format

def typeMap : List (String × String) := [
  ("*", "*"),
  ("ArrayExpression", "array"),
  ("AssignmentExpression", "assignment"),
  ("BinaryExpression", "binary expression"),
  ("BlockStatement", "\x7b\x7d"),
  ("BreakStatement", "break"),
  ("CallExpression", "function call"),
  ("CaseStatement", "case"),
  ("ConditionalExpression", "?:"),
  ("ContinueStatement", "continue"),
  ("DebuggerStatement", "debugger"),
  ("DoWhileStatement", "do while"),
  ("ElseIfStatement", "else if"),
  ("ElseStatement", "else"),
  ("EmptyStatement", "empty statement"),
  ("ExpressionStatement", "expression statement"),
  ("ForInStatement", "for in"),
  ("ForStatement", "for"),
  ("FunctionDeclaration", "function"),
  ("FunctionExpression", "function expression"),
  ("Identifier", "identifier"),
  ("IfStatement", "if"),
  ("LabeledStatement", "label"),
  ("Lambda", "lambda"),
  ("Literal", "literal"),
  ("LogicalExpression", "logical expression"),
  ("MemberExpression", "member"),
  ("NewExpression", "new"),
  ("ObjectExpression", "object"),
  ("Program", "program"),
  ("ReturnStatement", "return"),
  ("SequenceExpression", ","),
  ("SwitchStatement", "switch"),
  ("ThisExpression", "this"),
  ("ThrowStatement", "throw"),
  ("TryStatement", "try"),
  ("UnaryExpression", "unary expression"),
  ("UpdateExpression", "update expression"),
  ("VariableDeclaration", "var"),
  ("WhileStatement", "while"),
  ("WithStatement", "with"),
  ("objj_ArrayLiteral", "@[]"),
  ("objj_ClassDeclaration", "@implementation"),
  ("objj_ClassStatement", "@class"),
  ("objj_Dereference", "@deref"),
  ("objj_DictionaryLiteral", "@\x7b\x7d"),
  ("objj_GlobalStatement", "@global"),
  ("objj_ImportStatement", "@import"),
  ("objj_IvarDeclaration", "ivar"),
  ("objj_MessageSendExpression", "message"),
  ("objj_MethodDeclaration", "method"),
  ("objj_ObjectiveJType", "objective-j type"),
  ("objj_ProtocolDeclaration", "@protocol"),
  ("objj_ProtocolLiteralExpression", "@protocol()"),
  ("objj_Reference", "@ref"),
  ("objj_SelectorLiteralExpression", "@selector"),
  ("objj_TypeDefStatement", "@typedef")]

def nodeType? (type : String) : Option String := typeMap.lookup type

def globals (f : Format) : Table String Json :=
  if f.hasGlobals then (f.data.get? (.text "*")).getD {} else {}

def global (f : Format) (key : String) : Json := (f.globals.get? key).getD .null

/-- A value as it is kept: a text before or after a node is a choice with one alternative. -/
def normalize (key : String) (value : Json) : Json :=
  match value with
  | .str s => if key = "before" ∨ key = "after" then .obj [("*", .str s)] else value
  | _ => value

def give (f : Format) (type : Key) (values : List (String × Json)) : Format :=
  let own := (f.data.get? type).getD {}
  let own := values.foldl (fun own (key, value) => own.set key (normalize key value)) own
  { f with data := f.data.set type own }

def giveMember (group : String) (values : List (String × Json)) (f : Format) (member : Json) :
    Except FormatError Format := do
  let some type := member.key? | throw .unusable
  let spellings := if type.text?.isSome then f.spellings else f.spellings.setDefault type member
  return { f.give type values with groups := f.groups.set type group, spellings }

def spelling (f : Format) (type : Key) : Json := (f.spellings.get? type).getD type.toJson

def addEntry (f : Format) (key : String) (entry : Json) : Except FormatError Format := do
  let .obj values := entry | throw (.entryNotAnObject f.name key)
  if key = "*" then return { f.give (.text "*") values with hasGlobals := true }
  if !Text.startsWith ['*'] key.toList then return f.give (.text key) values
  let nodes := (values.lookup "nodes").getD (.arr [])
  let values := values.filter fun (key, _) => key ≠ "nodes"
  let some nodes := nodes.items? | throw .unusable
  nodes.foldlM (giveMember key values) f

/-- The format that a specification describes; an empty value describes the empty format. -/
def ofJson (name : String) (spec : Json) : Except FormatError Format := do
  if !spec.truthy then return { name }
  let .obj entries := spec | throw (.notAnObject name)
  entries.foldlM (fun f (key, entry) => f.addEntry key entry) { name }

end Format

end ObjectiveJ
