import ObjectiveJ.Tree.Basic

/-!
# Imports of a program

The files that a program imports, in the order of its text. Nothing is looked for inside an import.
-/

namespace ObjectiveJ

structure Import where
  path : String
  isLocal : Value

namespace Import

def text (i : Import) : String :=
  if i.isLocal.truthy then s!"\"{i.path}\"" else s!"<{i.path}>"

/-- The path that an import names: the value of its literal, nothing if there is no literal. -/
def path? (filename : Value) : Option String :=
  if filename.isNull then some "" else (filename.part? "value").map Value.display

end Import

mutual

def Tree.imports? : Tree → Option (List Import)
  | ⟨type, _, fields, _⟩ =>
    if type = .importStatement then do
      let path ← Import.path? ((fields.lookup "filename").getD .null)
      return [{ path, isLocal := (fields.lookup "local").getD .null }]
    else importsOfFields? fields

def importsOfFields? : List (String × Value) → Option (List Import)
  | [] => some []
  | (_, value) :: rest => do return (← importsOfValue? value) ++ (← importsOfFields? rest)

def importsOfValue? : Value → Option (List Import)
  | .tree t => t.imports?
  | .list items => importsOfItems? items
  | .accessors property getter setter _ _ _ => do
    return (← importsOfName? property) ++ (← importsOfName? getter) ++ (← importsOfName? setter)
  | _ => some []

def importsOfItems? : List Value → Option (List Import)
  | [] => some []
  | .tree t :: rest => do return (← t.imports?) ++ (← importsOfItems? rest)
  | _ :: rest => importsOfItems? rest

def importsOfName? : Value → Option (List Import)
  | .tree t => t.imports?
  | _ => some []

end

end ObjectiveJ
