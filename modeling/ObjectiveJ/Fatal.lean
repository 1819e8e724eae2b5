import ObjectiveJ.Location

/-!
# Fatal errors

The problems that end the compilation of a unit at once. A `Cause` says what went wrong; its
wording is in `message`, `notes` and `hint`. A `Report` is the error as it is printed.
-/

namespace ObjectiveJ

/-- An error as it is printed. The hint and the source line are nothing if they are missing. -/
structure Report where
  message : Value
  location : Option Location
  hint : Value
  line : Value
  notes : List (Option Location × Value)

def Location.lead (location : Option Location) (message : String) : String :=
  match location with
  | some l => l.text ++ ": " ++ message
  | none => message

def Report.text (r : Report) : String :=
  let notes := r.notes.map fun (location, note) =>
    Location.lead location ("note: " ++ note.display)
  let hint := if r.hint.truthy then ["hint: " ++ r.hint.display] else []
  "\n".intercalate
    (Location.lead r.location ("error: " ++ r.message.display) ::
      (Location.excerpt r.location r.line ++ notes ++ hint))

inductive Cause where
  | tooManyErrors (limit : Json)
  | duplicateDefinition (what name : String) (previous : Option Location)
  | unknownSuperclass (superclass name : String)
  | superOutsideMethod
  | superInRootClass (name : String)
  | effectfulDereference
  | strayMethod
  | other (message hint : Value) (notes : List (Option Location × Value))

namespace Cause

def message : Cause → Value
  | tooManyErrors limit => .str ("too many errors (>" ++ limit.display ++ ")")
  | duplicateDefinition what name _ =>
    .str ("duplicate definition of " ++ what ++ " '" ++ name ++ "'")
  | unknownSuperclass superclass name =>
    .str ("cannot find implementation declaration for '" ++ superclass ++ "', superclass of '" ++
      name ++ "'")
  | superOutsideMethod => .str "'super' can only be used inside a method"
  | superInRootClass name =>
    .str ("'" ++ name ++ "' class cannot use 'super' because it is a root class")
  | effectfulDereference => .str "dereference of expression with side effects"
  | strayMethod => .str "method declaration outside of @implementation or @protocol"
  | other message _ _ => message

def notes : Cause → List (Option Location × Value)
  | duplicateDefinition _ _ previous => [(previous, .str "previous definition is here")]
  | other _ _ notes => notes
  | _ => []

def hint : Cause → Value
  | effectfulDereference => .str "assign the expression to a variable and dereference that"
  | other _ hint _ => hint
  | _ => .null

end Cause

/-- A cause with its place and the source line there, nothing if the line is not known. -/
structure Fatal where
  cause : Cause
  location : Option Location
  line : Value := .null

namespace Fatal

def report (f : Fatal) : Report :=
  { message := f.cause.message
    location := f.location
    hint := f.cause.hint
    line := f.line
    notes := f.cause.notes }

def canShow (f : Fatal) : Bool :=
  match f.location with
  | some l => f.line.isNull || l.hasColumn
  | none => true

end Fatal

end ObjectiveJ
