import ObjectiveJ.Generate.State
import ObjectiveJ.Syntax.Precedence

/-!
# Compiling a node and its parts

Every node is compiled between the hooks before and after its type, with the node entered in the
ancestry. The parts of a node may need parentheses, a deeper indentation or a comment that shows
their source.
-/

namespace ObjectiveJ.Gen

/-- Where the last declaration of a `var` statement stands, or the statement if it has none. -/
def lastDeclaration (t : Tree) : Option Location :=
  match ((t.get? "declarations").bind Value.items?).bind List.getLast? with
  | some (.tree last) => last.location
  | _ => t.location

def roleOf (t : Tree) : StatementRole :=
  match t.type with
  | .expressionStatement =>
    let expression := (t.get? "expression").getD .null
    if expression.isNode .assignmentExpression || expression.isNode .sequenceExpression then
      .assignment
    else .other
  | .variableDeclaration => .vars (lastDeclaration t)
  | _ => .other

/-- Enters a node in the ancestry for as long as something is compiled. -/
def within (type : String) (role : StatementRole) (body : Gen Unit) : Gen Unit := do
  modify fun s => { s with ancestry := s.ancestry.push type role }
  body
  modify fun s => { s with ancestry := s.ancestry.pop type }

def enclose (type : String) (role : StatementRole) (body : Walk) (site : Site) : Gen Unit :=
  within type role do
    hook site.buffer type "before"
    body { site with type }
    hook site.buffer type "after"

/-- The body of a control statement: a statement that is no block is indented. -/
def dependent (walk : Walker) (v : Value) (site : Site) : Gen Unit :=
  if v.isNode .blockStatement then walk .plain v site
  else do
    indent
    walk .plain v site
    dedent

def parenthesized (type : String) (body : Walk) (site : Site) : Gen Unit := do
  leftParens site.buffer type
  body site
  rightParens site.buffer type

/-- A part of an expression, in parentheses if it binds more loosely. -/
def operand (walk : Walker) (parent : Tree) (v : Value) (right : Bool) (site : Site) :
    Gen Unit := do
  let t ← treeOf v
  if ← ofOption (Precedence.needsParens? parent t right) then
    parenthesized t.type.name (walk .plain v) site
  else walk .plain v site

/-- Writes each of a list of values, and a separator between two of them. -/
def between (separator : Gen Unit) (write : Value → Gen Unit) : List Value → Gen Unit
  | [] => pure ()
  | [v] => write v
  | v :: rest => do
    write v
    separator
    between separator write rest

def inTurn (walk : Walker) (vs : List Value) (site : Site) : Gen Unit :=
  vs.forM (walk .plain · site)

def separated (walk : Walker) (vs : List Value) (site : Site) : Gen Unit :=
  between (comma site.buffer site.type) (walk .plain · site) vs

def sourceText (span : Span) : Gen (Option String) := do
  match (← get).settings.source with
  | none => return none
  | some source =>
    if span.stop ≤ span.start then return none
    return some (String.ofList (Text.slice span.start span.stop source))

def sourceComment (buffer : Nat) (span : Span) : Gen Unit := do
  if let some shown ← sourceText span then
    textAt buffer s!"/* {shown} */ " span.location

def tempName (level : Int) : String := "___r" ++ level.repr

def closeFrame (frame : FrameId) (buffer : Nat) : Gen Unit := do
  let used := (((← get).frames.frame? frame).map (·.maxLevel)).getD 0
  if used = 0 then return
  template buffer "\n\n// Generated receiver temp variables\nvar "
  text buffer (", ".intercalate ((List.range used.toNat).map fun (i : Nat) => tempName (i + 1)))
  text buffer ";"

end ObjectiveJ.Gen
