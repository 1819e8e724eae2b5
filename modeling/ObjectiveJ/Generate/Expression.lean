import ObjectiveJ.Generate.Check
import ObjectiveJ.Generate.Enclose
import ObjectiveJ.Json.Writer

/-!
# Expressions

The code of the expressions of JavaScript, with references to variables, and of dereferences. An
instance variable is written with `self.` before it.
-/

namespace ObjectiveJ.Expression

open Gen

variable (walk : Walker) (t : Tree) (site : Site)

inductive Meaning where
  | property
  | variable
  | ivar (name : Key)
  | other

def meaning (frame : FrameId) (name : Value) : Gen Meaning := do
  let s ← get
  let context := s.frames.context frame
  if context.isMember || context.isPropertyKey then return .property
  if !s.frames.isLocal frame then return .other
  let key ← Gen.key name
  if (s.frames.lookupInMethod frame key).isSome then return .variable
  if !(s.frames.currentMarker frame).isText "-" then return .other
  if (s.frames.ivar s.symbols frame key).isNone then return .other
  return .ivar key

/-- Writes `self.` before the name of an instance variable. The frame remembers where, since a
variable that is declared later may hide it. -/
def writeSelf (t : Tree) (name : Value) (site : Site) : Meaning → Gen Unit
  | .ivar key => do
    let index := (← get).trace.size
    modifyFrames (·.addIvarRefs site.frame key name [{ index, location := t.location }])
    textAt site.buffer "self." t.location
  | _ => pure ()

def checkName (t : Tree) (site : Site) : Meaning → Gen Unit
  | .other => Check.identifier site.frame t
  | _ => pure ()

def identifier : Gen Unit := do
  let name ← field t "name"
  let meaning ← meaning site.frame name
  writeSelf t name site meaning
  writeAt site.buffer name t.location
  checkName t site meaning
  setContext site.frame fun c => { c with isReceiver := false }

/-- The text of a literal: as it was written, without the `@` of a string, or that of its value. -/
def literalText? (value raw : Value) : Option String :=
  if raw.truthy then
    raw.text?.map fun s => match s.toList with
      | '@' :: rest => String.ofList rest
      | _ => s
  else some (match value with
    | .null => "null"
    | .bool b => if b then "true" else "false"
    | .str s => Json.quote s
    | value => value.quoted)

def literal : Gen Unit := do
  textAt site.buffer (← ofOption (literalText? (← field t "value") (← field t "raw"))) t.location

def this : Gen Unit := textAt site.buffer "this" t.location

/-- An element of an array may be missing. -/
def element (walk : Walker) (v : Value) (site : Site) : Gen Unit :=
  if v.isNull then pure () else walk .plain v site

def array : Gen Unit := do
  let elements ← fieldItems t "elements"
  let count := elements.length
  bracketAt site.buffer site.type "[" "left-bracket" count t.location
  between (bracketAt site.buffer site.type "," "comma" count none) (element walk · site) elements
  bracketAt site.buffer site.type "]" "right-bracket" count none

def property (walk : Walker) (p : Value) (site : Site) : Gen Unit := do
  hook site.buffer site.type "before-property"
  setContext site.frame fun c => { c with isPropertyKey := true }
  walk .plain (← part p "key") site
  setContext site.frame fun c => { c with isPropertyKey := false }
  formatted site.buffer site.type ":" "colon"
  walk .plain (← part p "value") site

def object : Gen Unit := do
  let ps ← field t "properties"
  let which := if ps.truthy then "" else "empty-"
  formattedAt site.buffer site.type (.str "\x7b") (which ++ "left-brace") t.location
  between (comma site.buffer site.type) (property walk · site) (← items ps)
  formatted site.buffer site.type "\x7d" (which ++ "right-brace")

def sequence : Gen Unit := do
  separated walk (← fieldItems t "expressions") site

def wordOperators : List String := ["delete", "in", "instanceof", "new", "typeof", "void"]

def unary : Gen Unit := do
  let op ← field t "operator"
  writeAt site.buffer op t.location
  if ((← Gen.key op).text?.map wordOperators.contains).getD false then text site.buffer " "
  operand walk t (← field t "argument") false site

def arguments : Gen Unit := do
  let args ← field t "arguments"
  hook site.buffer site.type "before-left-parens"
  text site.buffer "("
  if args.truthy then
    hook site.buffer site.type "after-left-parens"
    separated walk (← items args) site
    hook site.buffer site.type "before-right-parens"
  text site.buffer ")"
  hook site.buffer site.type "after-right-parens"

def firstSite (site : Site) : Site := { site with earlier := 2 * site.earlier }

def secondSite (site : Site) : Site := { site with earlier := 2 * site.earlier + 1 }

/-- The call that gives a reference its next value. -/
def updatedReference (walk : Walker) (op ref argument : Value) (site : Site) : Gen Unit := do
  parenthesized site.type (walk .plain ref) (firstSite site)
  leftParens site.buffer site.type
  walk .plain argument (secondSite site)
  operator site.buffer site.type (← ofOption ((← ofOption op.sequence?).head?))
  text site.buffer "1"
  rightParens site.buffer site.type

/-- An update of a dereference: `@deref(r)++` is a call of `r` with the value that `r` has then, and
the value of the whole is that before it. -/
def updateReference (walk : Walker) (t : Tree) (op argument : Value) (isPrefix : Bool)
    (site : Site) : Gen Unit := do
  let buffer := site.buffer
  let ref ← part argument "ref"
  Check.dereference ref
  sourceComment buffer t.span
  if isPrefix then updatedReference walk op ref argument site
  else
    leftParens buffer site.type
    updatedReference walk op ref argument site
    operator buffer site.type (.str (if op.isText "++" then "-" else "+"))
    text buffer "1"
    rightParens buffer site.type

def update : Gen Unit := do
  let op ← field t "operator"
  let isPrefix := (← field t "prefix").truthy
  let argument ← field t "argument"
  if argument.isNode .dereference then updateReference walk t op argument isPrefix site
  else
    if isPrefix then writeAt site.buffer op t.location
    operand walk t argument false site
    if !isPrefix then writeAt site.buffer op none

/-- An operator between two operands; a word has blanks around it in any layout. -/
def binaryOperator (op : String) (site : Site) : Gen Unit :=
  if !op.isEmpty && op.toList.all Text.isLetter then text site.buffer (" " ++ op ++ " ")
  else operator site.buffer site.type (.str op)

def binary : Gen Unit := do
  operand walk t (← field t "left") false site
  binaryOperator (← textOf (← field t "operator")) site
  operand walk t (← field t "right") true site

/-- From here on `self` may be nil in the method around. -/
def selfMayBeNil (frame : FrameId) : Gen Unit := do
  match (← get).frames.lookupInMethod frame (.text "self") with
  | some { kind := .self, owner := some owner, .. } =>
    modifyFrames (·.modify owner fun f => { f with selfAssigned := true })
  | _ => pure ()

def isNamed (v : Value) (name : String) : Bool :=
  v.isNode .identifier && ((v.part? "name").getD .null).isText name

/-- The operator that an assignment applies before it assigns: all but the last character. -/
def applied? : Value → Option Value
  | .str s => some (.str (String.ofList s.toList.dropLast))
  | .list items => some (.list items.dropLast)
  | .tuple items => some (.tuple items.dropLast)
  | _ => none

/-- An assignment to a dereference: `@deref(r) = v` is a call of `r` with `v`. -/
def assignReference (walk : Walker) (t : Tree) (op left : Value) (site : Site) : Gen Unit := do
  let buffer := site.buffer
  let ref ← part left "ref"
  Check.dereference ref
  sourceComment buffer t.span
  let isPlain := op.isText "="
  parenthesized site.type (walk .plain ref) (if isPlain then site else firstSite site)
  leftParens buffer site.type
  if !isPlain then
    walk .plain left (secondSite site)
    operator buffer site.type (← ofOption (applied? op))
  walk .plain (← field t "right") site
  rightParens buffer site.type

def assignment : Gen Unit := do
  let op ← field t "operator"
  let left ← field t "left"
  if left.isNode .dereference then assignReference walk t op left site
  else
    let saved := ((← get).frames.context site.frame).assignment
    setContext site.frame fun c => { c with assignment := op }
    if isNamed left "self" then selfMayBeNil site.frame
    operand walk t left false site
    operator site.buffer site.type op
    setContext site.frame fun c => { c with assignment := saved }
    operand walk t (← field t "right") true site

def conditional : Gen Unit := do
  operand walk t (← field t "test") false site
  operator site.buffer site.type (.str "?")
  walk .plain (← field t "consequent") site
  operator site.buffer site.type (.str ":")
  walk .plain (← field t "alternate") site

def construct : Gen Unit := do
  textAt site.buffer "new " t.location
  operand walk t (← field t "callee") false site
  arguments walk t site

def call : Gen Unit := do
  let callee ← field t "callee"
  if isNamed callee "eval" then selfMayBeNil site.frame
  operand walk t callee false site
  arguments walk t site

def member : Gen Unit := do
  setContext site.frame fun c => { c with isMemberParent := true }
  operand walk t (← field t "object") false site
  setContext site.frame fun c => { c with isMemberParent := false }
  let property ← field t "property"
  if (← field t "computed").truthy then
    formatted site.buffer site.type "[" "left-bracket"
    let saved := ((← get).frames.context site.frame).assignment
    setContext site.frame fun c => { c with assignment := .null }
    walk .plain property site
    setContext site.frame fun c => { c with assignment := saved }
    formatted site.buffer site.type "]" "right-bracket"
  else
    text site.buffer "."
    setContext site.frame fun c => { c with isMember := true }
    walk .plain property site
    setContext site.frame fun c => { c with isMember := false }

def reference : Gen Unit := do
  let name := (← part (← field t "ref") "name").display
  textAt site.buffer
    (s!"/* @ref({name}) */ function $at_ref(__value) \x7b return arguments.length ? " ++
      s!"{name} = __value : {name}; \x7d") t.location

def dereference : Gen Unit := do
  let ref ← field t "ref"
  Check.dereference ref
  textAt site.buffer "" t.location
  walk .plain ref site
  text site.buffer "()"

end ObjectiveJ.Expression
