import ObjectiveJ.Diagnostics

/-!
# Diagnostics from settings

Diagnostics are set up by an object, in which every setting may be left out. The switches of the
warnings are an object or a list of pairs.
-/

namespace ObjectiveJ.Diagnostics

def settingNames : List String := [
  "source", "filename", "max_errors", "warnings", "ignore_warnings"]

def pair? (j : Json) : Option (Key × Json) := do
  let [name, on] ← j.items? | none
  return (← name.key?, on)

def switches? (j : Json) : Option (List (Key × Json)) :=
  if !j.truthy then some []
  else match j with
    | .obj members => some (members.map fun (name, on) => (.text name, on))
    | j => do (← j.items?).mapM pair?

def source? : Json → Option (Option String)
  | .null => some none
  | .str s => some (some s)
  | _ => none

def ofMembers? (given : List (String × Json)) : Option Diagnostics := do
  if given.any fun (name, _) => !settingNames.contains name then none
  let value (name : String) : Json := (given.lookup name).getD .null
  let base := ofSource (← source? (value "source"))
  let switches ← switches? (value "warnings")
  return { base with
    maxErrors := (given.lookup "max_errors").getD base.maxErrors
    warnings := base.warnings.merge ⟨switches⟩
    ignoreWarnings := (value "ignore_warnings").truthy }

end ObjectiveJ.Diagnostics
