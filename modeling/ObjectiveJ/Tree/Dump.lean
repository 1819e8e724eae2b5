import ObjectiveJ.Json.Exact
import ObjectiveJ.Tree.Basic

/-!
# Trees as JSON

A view of trees for tools: a node is an object with its type, its place and one member for each
field, whose name has a point in front. `Value.plain?` is the view of values that hold no node;
`Location.ofJson?` reads a location back.
-/

namespace ObjectiveJ

mutual

def Value.plain? : Value → Option Json
  | .data j => some j
  | .list items => do return .arr (← plainItems? items)
  | .tuple items => do return .arr (← plainItems? items)
  | _ => none

def plainItems? : List Value → Option (List Json)
  | [] => some []
  | item :: rest => do return (← item.plain?) :: (← plainItems? rest)

end

def jsonOfValues? (vs : List Value) : Option Json := (plainItems? vs).map .arr

namespace Location

def toJson? (l : Location) : Option Json := jsonOfValues? [l.file, l.line, l.column]

/-- The location that three items make. Nothing makes no location, and none stands for any other
value. -/
def ofJson? (j : Json) : Option (Option Location) :=
  if j.isNull then some none
  else match j.items? with
    | some [file, line, column] =>
      some (some { file := .ofJson file, line := .ofJson line, column := .ofJson column })
    | _ => none

end Location

def jsonOfLocation? : Option Location → Option Json
  | some l => l.toJson?
  | none => some .null

mutual

def Tree.toJson? : Tree → Option Json
  | ⟨type, span, fields, _⟩ => do
    return .obj ([("type", .str type.name), ("loc", ← jsonOfLocation? span.location),
      ("start", .int span.start), ("end", .int span.stop)] ++ (← jsonOfFields? fields))

def jsonOfFields? : List (String × Value) → Option (List (String × Json))
  | [] => some []
  | (name, value) :: rest => do return ("." ++ name, ← value.toJson?) :: (← jsonOfFields? rest)

def Value.toJson? : Value → Option Json
  | .data j => some j.exact
  | .list items => do return .arr (← jsonOfItems? items)
  | .tuple items => do return .arr (← jsonOfItems? items)
  | .location l => l.toJson?
  | .tree t => t.toJson?
  | .accessors property getter setter readonly readwrite copy => do
    return .obj [("property", ← property.toJson?), ("getter", ← getter.toJson?),
      ("setter", ← setter.toJson?), ("readonly", ← readonly.toJson?),
      ("readwrite", ← readwrite.toJson?), ("copy", ← copy.toJson?)]

def jsonOfItems? : List Value → Option (List Json)
  | [] => some []
  | item :: rest => do return (← item.toJson?) :: (← jsonOfItems? rest)

end

end ObjectiveJ
