import ObjectiveJ.Text.Basic
import ObjectiveJ.Text.Case
import ObjectiveJ.Tree.Basic

/-!
# Names of accessor methods

The selectors of the methods that an accessor clause asks for. A variable `age` is read by `age`
and set by `setAge:`, a variable `_age` is set by `_setAge:`, and the clause may name a property,
a getter or a setter instead. Where a name is needed and something else stands there, there is no
selector.
-/

namespace ObjectiveJ.Accessors

def stripColon (s : String) : String :=
  let cs := s.toList
  if 1 < cs.length ∧ Text.endsWith [':'] cs then String.ofList cs.dropLast else s

/-- The name that a value is without a colon at its end; a list of at most one item stays. -/
def strip? : Value → Option Value
  | .str s => some (.str (stripColon s))
  | v => do if (← v.size?) ≤ 1 then some v else none

def given? (clause : Value) (part : String) : Option (Option Value) := do
  let identifier ← clause.part? part
  if identifier.isNull then return none
  return some (← identifier.part? "name")

def getter? (clause ivar : Value) : Option Value := do
  if let some name ← given? clause "getter" then return ← strip? name
  if let some name ← given? clause "property" then return name
  return ivar

def setterOf (ivar : String) : String :=
  match ivar.toList with
  | '_' :: c :: rest => "_set" ++ Text.capitalize (String.ofList (c :: rest)) ++ ":"
  | _ => "set" ++ Text.capitalize ivar ++ ":"

def setter? (clause ivar : Value) : Option String := do
  if let some name ← given? clause "setter" then return stripColon (← name.text?) ++ ":"
  if let some name ← given? clause "property" then
    return "set" ++ Text.capitalize (← name.text?) ++ ":"
  return setterOf (← ivar.text?)

def attribute? (clause : Value) (part : String) (f : Value → Option Value) :
    Option (List String) := do
  match ← given? clause part with
  | none => return []
  | some name => return [part ++ "=" ++ (← f name).display]

def attributes? (clause : Value) : Option String := do
  let flag ← if (← clause.part? "readonly").truthy then pure ["readonly"]
    else if (← clause.part? "copy").truthy then pure ["copy"] else pure []
  let all := flag ++ (← attribute? clause "property" some) ++
    (← attribute? clause "getter" some) ++ (← attribute? clause "setter" strip?)
  return if all.isEmpty then "" else "(" ++ ", ".intercalate all ++ ")"

end ObjectiveJ.Accessors
