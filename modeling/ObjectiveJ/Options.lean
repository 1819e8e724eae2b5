import ObjectiveJ.Json.Display
import ObjectiveJ.Predefined
import ObjectiveJ.Warning

/-!
# Options

How a unit is compiled. Options are read from an object, in which every option may be left out; a
value that makes no sense is refused. What is used only later, with the format or in a source map,
is kept as the value that was given.
-/

namespace ObjectiveJ

structure Options where
  sourceMap : Bool := false
  sourceRoot : Json := .str "."
  format : Json := .str "cappuccino"
  indentString : Json := .str " "
  indentWidth : Json := .int 4
  environment : Environment := .browser
  maxErrors : Json := .int 20
  methodNames : Bool := true
  typeSignatures : Bool := true
  inlineMsgSend : Bool := false
  objjScope : Bool := true
  ignoreWarnings : Bool := false
  warnings : Table String Bool := Warning.defaults
  predefined : Json := .null

inductive OptionError where
  | maxErrors (given : Json)
  | environment (given : Json)
  | indentWidth (given : Json)
  | unusable

namespace OptionError

def message? : OptionError → Option String
  | maxErrors given => some ("max_errors must be greater than 0, got " ++ given.quoted)
  | environment given =>
    some ("unknown environment '" ++ given.display ++ "' (expected one of: " ++
      ", ".intercalate (Environment.all.map (·.name)) ++ ")")
  | indentWidth given => some ("indent_width must not be negative, got " ++ given.display)
  | unusable => none

end OptionError

namespace Options

def names : List String := [
  "source_map", "source_root", "format", "indent_string", "indent_width", "environment",
  "max_errors", "method_names", "type_signatures", "inline_msg_send", "objj_scope",
  "ignore_warnings", "warnings", "predefined_globals"]

def members? (j : Json) : Option (List (String × Json)) :=
  if !j.truthy then some []
  else match j with
    | .obj members => some members
    | _ => none

/-- Switches over the ones that are set; names of no warning are passed over. -/
def switches (t : Table String Bool) (given : List (String × Json)) : Table String Bool :=
  given.foldl (fun t (name, on) => if t.contains name then t.set name on.truthy else t) t

/-- The limit of errors, which is a positive number; `true` stands for one. -/
def limit (j : Json) : Except OptionError Json :=
  match j with
  | .int n => if 0 < n then .ok j else .error (.maxErrors j)
  | .bool true => .ok j
  | _ => .error (.maxErrors j)

def environmentOf (j : Json) : Except OptionError Environment :=
  match j.str?.bind Environment.ofName? with
  | some e => .ok e
  | none => .error (.environment j)

def checkWidth (j : Json) : Except OptionError Unit :=
  match j with
  | .int n => if n < 0 then .error (.indentWidth j) else .ok ()
  | .float x => if x < 0 then .error (.indentWidth j) else .ok ()
  | .bool _ => .ok ()
  | _ => .error .unusable

def nonNull (j default : Json) : Json := if j.isNull then default else j

def ofJson (j : Json) : Except OptionError Options := do
  let .obj given := j | throw .unusable
  if given.any fun (name, _) => !names.contains name then throw .unusable
  let base : Options := {}
  let value (name : String) (default : Json) := (given.lookup name).getD default
  let flag (name : String) (default : Bool) := (value name (.bool default)).truthy
  let some warnings := members? (value "warnings" .null) | throw .unusable
  let maxErrors ← limit (value "max_errors" base.maxErrors)
  let environment ← environmentOf (value "environment" (.str base.environment.name))
  let indentWidth := value "indent_width" base.indentWidth
  checkWidth indentWidth
  return {
    sourceMap := flag "source_map" base.sourceMap
    sourceRoot := nonNull (value "source_root" base.sourceRoot) base.sourceRoot
    format := nonNull (value "format" base.format) base.format
    indentString := value "indent_string" base.indentString
    indentWidth
    environment
    maxErrors
    methodNames := flag "method_names" base.methodNames
    typeSignatures := flag "type_signatures" base.typeSignatures
    inlineMsgSend := flag "inline_msg_send" base.inlineMsgSend
    objjScope := flag "objj_scope" base.objjScope
    ignoreWarnings := flag "ignore_warnings" base.ignoreWarnings
    warnings := switches base.warnings warnings
    predefined := value "predefined_globals" .null }

/-- The predefined globals, with those that the options add; a value says whether one may be
written. -/
def globals? (o : Options) : Option (Table String PredefinedGlobal) := do
  let more ← members? o.predefined
  return Predefined.globals o.environment
    (more.map fun (name, writable) => (name, { writable := .bool writable.truthy }))

end Options

end ObjectiveJ
