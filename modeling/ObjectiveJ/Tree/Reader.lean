import ObjectiveJ.Json.Reader
import ObjectiveJ.Tree.Schema

/-!
# Reading syntax trees

A node is an object whose `type` is one of the types of the schema. The value of a field is looked
for under `objj` first and then in the object itself; a field that is not given keeps the value of
the schema. Objects in a field are nodes; a parameter of a method may also be an object that has a
type and a name of its own.

`Tree.ofJson` reads one node and `Tree.program` a whole program.
-/

namespace ObjectiveJ

inductive TreeError where
  | notANode
  | unknownType (name : String)
  | untypedObject (field : String)
  | accessorsNotAnObject
  | notAProgram (type : String)
  | invalidText
  | unusable
  deriving Repr, DecidableEq

namespace TreeError

def message? : TreeError → Option String
  | notANode => some "expected an AST node object"
  | unknownType name => some s!"unknown AST node type '{name}'"
  | untypedObject field => some s!"untyped object in field '{field}'"
  | accessorsNotAnObject => some "@accessors must be an object"
  | notAProgram type => some s!"expected a Program node, got '{type}'"
  | invalidText => some "invalid AST JSON"
  | unusable => none

end TreeError

namespace Json

def hasText (key : String) (items : List Json) : Bool :=
  items.any fun item => item.str? == some key

end Json

namespace Tree

/-- The value that a container has under a key. A text or an array that mentions the key has no
value under it, and a number has no keys at all. -/
def member (container : Json) (key : String) : Except TreeError (Option container.Part) :=
  match container with
  | .str s => if (s.splitOn key).length > 1 then throw .unusable else pure none
  | .arr items => if Json.hasText key items then throw .unusable else pure none
  | .obj members => pure ((Json.obj members).part? key)
  | _ => throw .unusable

def wholeNumber (j : Json) (key : String) (default : Int) : Except TreeError Int :=
  match j.get? key with
  | none => pure default
  | some v => match v.toInt? with
    | some n => pure n
    | none => throw .unusable

/-- The location an object gives under `loc`; the file is the one named there or in the object,
else the given one. Columns are counted from zero there. -/
def locationOfJson (file j : Json) : Except TreeError (Option Location) := do
  let loc := j.get "loc"
  if !loc.truthy then return none
  let some ⟨start, _⟩ ← member loc "start" | return none
  let .obj _ := start | throw .unusable
  let source := if (loc.get "source").truthy then loc.get "source"
    else if (j.get "sourceFile").truthy then j.get "sourceFile" else file
  let line ← wholeNumber start "line" 1
  let column ← wholeNumber start "column" 0
  return some { file := .ofJson source, line := .int line, column := .int (column + 1) }

/-- Where the value of a field is given: under `objj`, in the object by its key or by its name. -/
def given (j : Json) (field : String) : Except TreeError (Option j.Part) := do
  let key := Schema.key field
  let extension : Option j.Part ← match j.part? "objj" with
    | some ⟨objj, h⟩ =>
      if objj.truthy then
        pure ((← member objj key).map fun ⟨v, hv⟩ => ⟨v, Nat.lt_trans hv h⟩)
      else pure none
    | none => pure none
  if extension.isSome then return extension
  if field = "type" then return none
  return (j.part? key) <|> (j.part? field)

mutual

def ofJson (file j : Json) : Except TreeError Tree := do
  let some type := j.get? "type" | throw .notANode
  let some type := type.str?.bind NodeType.ofName?
    | match type with
      | .arr _ => throw .unusable
      | .obj _ => throw .unusable
      | _ => throw (.unknownType type.display)
  let location ← locationOfJson file j
  let start ← wholeNumber j "start" 0
  let stop ← wholeNumber j "end" 0
  let fields ← (Schema.fields type).mapM fun (field, default) => do
    match ← given j field with
    | none => pure (field, default)
    | some ⟨v, _⟩ =>
      if field = "accessors" then pure (field, ← accessorsOfJson file v)
      else pure (field, ← valueOfJson file field v)
  return { type, span := { location, start, stop }, fields }
termination_by 2 * sizeOf j

def accessorsOfJson (file j : Json) : Except TreeError Value := do
  if !j.truthy then return .null
  if !j.isObject then throw .accessorsNotAnObject
  let name (key : String) : Except TreeError Value :=
    match j.part? key with
    | some ⟨v, _⟩ => if v.truthy then return .tree (← ofJson file v) else return .null
    | none => return .null
  let flag (key : String) : Value := .bool (j.get key).truthy
  return .accessors (← name "property") (← name "getter") (← name "setter")
    (flag "readonly") (flag "readwrite") (flag "copy")
termination_by 2 * sizeOf j + 1

def valueOfJson (file : Json) (field : String) (j : Json) : Except TreeError Value :=
  match j with
  | .arr items => do return .list (← itemsOfJson file field items)
  | .obj members => do
    if ((Json.obj members).get "type").str?.isSome then
      return .tree (← ofJson file (.obj members))
    if field ≠ "params" then throw (.untypedObject field)
    let given ← namesOfJson file members
    let location ← locationOfJson file (.obj members)
    return .tree (Schema.make .methodParameter { location } given)
  | j => pure (.data j)
termination_by 2 * sizeOf j + 1

def itemsOfJson (file : Json) (field : String) (items : List Json) :
    Except TreeError (List Value) :=
  match items with
  | [] => pure []
  | item :: rest => do return (← valueOfJson file field item) :: (← itemsOfJson file field rest)
termination_by 2 * sizeOf items

/-- Reads the type and the name of a parameter that is given without a type of node. -/
def namesOfJson (file : Json) (members : List (String × Json)) :
    Except TreeError (List (String × Value)) :=
  match members with
  | [] => pure []
  | (key, v) :: rest => do
    if (key = "type" ∨ key = "id") ∧ !v.isNull then
      return (key, ← valueOfJson file key v) :: (← namesOfJson file rest)
    namesOfJson file rest
termination_by 2 * sizeOf members
decreasing_by all_goals simp only [List.cons.sizeOf_spec, Prod.mk.sizeOf_spec]; omega

end

def program (file j : Json) : Except TreeError Tree := do
  let j ← match j with
    | .str text => match Json.parse text with
      | .ok j => pure j
      | .error .malformed => throw .invalidText
      | .error .tooManyDigits => throw .unusable
    | j => pure j
  let t ← ofJson file j
  if t.type ≠ .program then throw (.notAProgram t.type.name)
  return t

end Tree

end ObjectiveJ
