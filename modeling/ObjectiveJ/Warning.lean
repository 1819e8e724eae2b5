import ObjectiveJ.Table
import ObjectiveJ.Text.Basic
import ObjectiveJ.Text.Blank

/-!
# Optional warnings

The warnings that can be switched on and off, and the lists of names by which a user does so: a
name or `+name` switches a warning on, `no-name` switches it off, and `all` and `none` switch every
warning.
-/

namespace ObjectiveJ

inductive Warning where
  | debugger
  | shadowedVars
  | implicitGlobals
  | unknownIdentifiers
  | parameterTypes
  | unknownTypes
  | unimplementedProtocolMethods
  deriving Repr, DecidableEq

namespace Warning

def name : Warning → String
  | debugger => "debugger"
  | shadowedVars => "shadowed-vars"
  | implicitGlobals => "implicit-globals"
  | unknownIdentifiers => "unknown-identifiers"
  | parameterTypes => "parameter-types"
  | unknownTypes => "unknown-types"
  | unimplementedProtocolMethods => "unimplemented-protocol-methods"

def all : List Warning := [
  debugger, shadowedVars, implicitGlobals, unknownIdentifiers, parameterTypes, unknownTypes,
  unimplementedProtocolMethods]

def onByDefault : Warning → Bool
  | parameterTypes => false
  | unknownTypes => false
  | _ => true

def names : List String := all.map name

def defaults : Table String Bool := ⟨all.map fun w => (w.name, w.onByDefault)⟩

def switch (switches : Table String Bool) (item : List Char) :
    Except String (Table String Bool) :=
  if item.isEmpty then .ok switches
  else if item = "all".toList ∨ item = "none".toList then
    .ok (names.foldl (fun switches name => switches.set name (item = "all".toList)) switches)
  else
    let (item, on) := if Text.startsWith "no-".toList item then (item.drop 3, false)
      else if Text.startsWith ['+'] item then (item.drop 1, true)
      else (item, true)
    let name := String.ofList item
    if names.contains name then .ok (switches.set name on) else .error name

/-- The switches that lists of warnings set, in order; a list is separated by commas. -/
def parse (values : List String) : Except String (Table String Bool) :=
  (values.flatMap fun value => Text.split ',' value.toList).foldlM
    (fun switches item => switch switches (Text.trim item)) {}

def unknownMessage (name : String) : String :=
  let list := ", ".intercalate names
  s!"unknown warning '{name}' (expected one of: {list})"

end Warning

end ObjectiveJ
