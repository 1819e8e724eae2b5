import ObjectiveJ.Generate.Check
import ObjectiveJ.Generate.Enclose
import ObjectiveJ.Tree.Imports

/-!
# Statements

The code of statements. Each statement is given with the way its parts are compiled.
-/

namespace ObjectiveJ.Statement

open Gen

variable (walk : Walker) (t : Tree) (site : Site)

/-- A block, which is the body of any node that has one. The block of a function, method or file
ends with the declaration of its temps. -/
def block (walk : Walker) (t : Tree) (closes : Bool) (site : Site) : Gen Unit := do
  formatted site.buffer site.type "\x7b" "left-brace"
  inTurn walk (← fieldItems t "body") site
  if closes then closeFrame site.frame site.buffer
  formatted site.buffer site.type "\x7d" "right-brace"

/-- A program. The file may be wrapped in a function that gives it a frame of its own. -/
def program : Gen Unit := do
  if (← get).settings.objjScope then
    let file ← newFrame { kind := .file, parent := some site.frame }
    text site.buffer "(function()"
    within "BlockStatement" .other
      (block walk t true { site with frame := file, type := "BlockStatement" })
    text site.buffer ")();"
    settle file
  else inTurn walk (← fieldItems t "body") site
  settle site.frame

def expression : Gen Unit := do
  walk .plain (← field t "expression") site

def empty : Gen Unit := textAt site.buffer ";" t.location

/-- An `if`. An `if` in the other branch is compiled as an `else if`. -/
def branch : Gen Unit := do
  textAt site.buffer "if" t.location
  parenthesized site.type (walk .plain (← field t "test")) site
  dependent walk (← field t "consequent") site
  let alternate ← field t "alternate"
  if alternate.isNull then return
  formatted site.buffer site.type "else" "else"
  if alternate.isNode .ifStatement then walk .elseIf alternate site
  else
    discard (treeOf alternate)
    enclose "ElseStatement" .other (dependent walk alternate) site

def labeled : Gen Unit := do
  let label ← field t "label"
  writeAt site.buffer (← part label "name") label.site
  formatted site.buffer site.type ":" "colon"
  walk .plain (← field t "body") site

def jump (t : Tree) (keyword : String) (site : Site) : Gen Unit := do
  textAt site.buffer keyword t.location
  let label ← field t "label"
  if !label.isNull then
    hook site.buffer site.type "before-label"
    writeAt site.buffer (← part label "name") label.site

def control (walk : Walker) (t : Tree) (keyword head : String) (site : Site) : Gen Unit := do
  textAt site.buffer keyword t.location
  parenthesized site.type (walk .plain (← field t head)) site
  dependent walk (← field t "body") site

def caseStatement (walk : Walker) (site : Site) (v : Value) : Gen Unit := do
  discard (treeOf v)
  enclose "CaseStatement" .other (walk .plain v) site

/-- What follows the head of a case. One that is not the last may be set off from the next one. -/
def caseBody (walk : Walker) (isLast : Bool) (v : Value) (site : Site) : Gen Unit := do
  formatted site.buffer site.type ":" "colon"
  let consequent ← part v "consequent"
  if consequent.truthy then
    indent
    (← items consequent).forM (caseStatement walk site)
    dedent
    if !isLast then hook site.buffer site.type "between-case-blocks"

def case (walk : Walker) (isLast : Bool) (v : Value) (site : Site) : Gen Unit := do
  let test ← part v "test"
  hook site.buffer site.type "before-case"
  if test.isNull then textAt site.buffer "default" v.site
  else
    textAt site.buffer "case " v.site
    walk .plain test site
  caseBody walk isLast v site

def cases (walk : Walker) : List Value → Walk
  | [], _ => pure ()
  | v :: rest, site => do
    case walk rest.isEmpty v site
    cases walk rest site

def switch : Gen Unit := do
  textAt site.buffer "switch" t.location
  parenthesized site.type (walk .plain (← field t "discriminant")) site
  formatted site.buffer site.type "\x7b" "left-brace"
  cases walk (← fieldItems t "cases") site
  formatted site.buffer site.type "\x7d" "right-brace"

def returning : Gen Unit := do
  let argument ← field t "argument"
  if argument.isNull then textAt site.buffer "return" t.location
  else
    textAt site.buffer "return " t.location
    walk .plain argument site

def throwing : Gen Unit := do
  textAt site.buffer "throw " t.location
  walk .plain (← field t "argument") site

/-- The handler of a `try`. Its parameter is a variable only while the handler is compiled. -/
def catching (walk : Walker) (handler : Value) (site : Site) : Gen Unit := do
  let param ← part handler "param"
  let name ← part param "name"
  let key ← Gen.key name
  let earlier := (← get).frames.localVar site.frame key
  declare site.frame key { kind := .localVar, node := param }
  hook site.buffer site.type "before-catch"
  textAt site.buffer "catch" handler.site
  leftParens site.buffer site.type
  writeAt site.buffer name param.site
  rightParens site.buffer site.type
  walk .plain (← part handler "body") site
  match earlier with
  | some v => declare site.frame key v
  | none => modifyFrames (·.undeclare site.frame key)

def finalizing : Gen Unit := do
  let finalizer ← field t "finalizer"
  if !finalizer.isNull then
    hook site.buffer site.type "before-finally"
    text site.buffer "finally"
    walk .plain finalizer site

def trying : Gen Unit := do
  textAt site.buffer "try" t.location
  walk .plain (← field t "block") site
  let handler ← field t "handler"
  if !handler.isNull then catching walk handler site
  finalizing walk t site

def doWhile : Gen Unit := do
  textAt site.buffer "do" t.location
  dependent walk (← field t "body") site
  formatted site.buffer site.type "while" "do-while"
  parenthesized site.type (walk .plain (← field t "test")) site

def optionalPart (walk : Walker) (t : Tree) (name : String) (site : Site) : Gen Unit := do
  let v ← field t name
  if !v.isNull then walk .plain v site

def semicolon (site : Site) : Gen Unit := do
  hook site.buffer site.type "after-init-expression"
  text site.buffer ";"
  hook site.buffer site.type "after-init-semicolon"

def forLoop : Gen Unit := do
  textAt site.buffer "for" t.location
  leftParens site.buffer site.type
  optionalPart walk t "init" site
  semicolon site
  optionalPart walk t "test" site
  semicolon site
  optionalPart walk t "update" site
  rightParens site.buffer site.type
  dependent walk (← field t "body") site

def forIn : Gen Unit := do
  textAt site.buffer "for" t.location
  leftParens site.buffer site.type
  walk .plain (← field t "left") site
  formatted site.buffer site.type "in" "in"
  walk .plain (← field t "right") site
  rightParens site.buffer site.type
  dependent walk (← field t "body") site

def debugger : Gen Unit := do
  textAt site.buffer "debugger" t.location
  if ← warns .debugger then warning (.tree t) "debugger statement"

/-- Checks the name that a `var` statement declares. -/
def checkName (frame : FrameId) (identifier name : Value) (key : Key) : Gen Unit := do
  let isOneOf (names : List String) := (key.text?.map names.contains).getD false
  if isOneOf Predefined.reservedWords then
    warning identifier "reserved word used as a variable name"
  else if isOneOf Predefined.implicitParameters &&
      ((← get).frames.currentMethod frame).isSome then
    error identifier s!"local declaration of '{name.display}' hides implicit method parameter"
  else Check.shadowing frame identifier name "local declaration of"

/-- Declares a name, and writes it with its initial value. -/
def introduce (walk : Walker) (kind : VarKind) (v identifier name : Value) (site : Site) :
    Gen Unit := do
  let key ← Gen.key name
  checkName site.frame identifier name key
  declare site.frame key { kind, node := identifier }
  writeAt site.buffer name identifier.site
  let init ← part v "init"
  if !init.isNull then
    formatted site.buffer site.type "=" "assign"
    walk .plain init site

def declarator (walk : Walker) (kind : VarKind) (isFirst : Bool) (v : Value) (site : Site) :
    Gen Unit := do
  let identifier ← part v "id"
  let name ← part identifier "name"
  if !isFirst then comma site.buffer site.type
  introduce walk kind v identifier name site

def declarators (walk : Walker) (kind : VarKind) (isFirst : Bool) : List Value → Walk
  | [], _ => pure ()
  | v :: rest, site => do
    declarator walk kind isFirst v site
    declarators walk kind false rest site

def vars : Gen Unit := do
  let kind := if (← get).frames.isLocal site.frame then VarKind.localVar else .fileVar
  textAt site.buffer "var " t.location
  declarators walk kind true (← fieldItems t "declarations") site

def importing : Gen Unit := do
  let path ← ofOption (Import.path? (← field t "filename"))
  let i : Import := { path, isLocal := ← field t "local" }
  textAt site.buffer ("// @import " ++ i.text) t.location

def typeLine (name : String) : String :=
  "objj_registerTypeDef(objj_allocateTypeDef(\"" ++ name ++ "\"));"

/-- Declares an announced name; the result is the name if it is that of a type, which needs a line
of code. -/
def announceName (t : Tree) (frame : FrameId) (identifier name : Value) : Gen (Option String) := do
  match t.type with
  | .classStatement =>
    let (id, symbols) := (← get).symbols.new (.classDef { name, node := identifier })
    modify fun s => { s with symbols }
    register (·.registerClass id)
    return none
  | .globalStatement =>
    let root := (← get).frames.root frame
    declare root (← Gen.key name) { kind := .atGlobal, node := identifier }
    return none
  | _ =>
    register (·.registerTypedef { name, node := identifier })
    return some name.display

/-- Declares announced names as far as they may be; the result is the names as the comment lists
them and those of types. -/
def announceNames (t : Tree) (frame : FrameId) : List Value → Gen (List String × List String)
  | [] => return ([], [])
  | identifier :: rest => do
    let name ← part identifier "name"
    let type ← if ← Check.isUnique frame t identifier then
        announceName t frame identifier name
      else pure none
    let more ← announceNames t frame rest
    return (name.display :: more.1, type.toList ++ more.2)

def announce (t : Tree) (keyword : String) (site : Site) : Gen Unit := do
  let (names, types) ← announceNames t site.frame (← fieldItems t "ids")
  let list := ", ".intercalate names
  textAt site.buffer (if names.isEmpty then "" else s!"// @{keyword} {list}") t.location
  if !types.isEmpty then template site.buffer ("\n" ++ "\n".intercalate (types.map typeLine))

end ObjectiveJ.Statement
