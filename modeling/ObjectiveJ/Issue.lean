import ObjectiveJ.Location

/-!
# Issues

What is found wrong with a program: notes, warnings and errors. Notes belong to the issue that they
explain and are shown after it. The place of an issue is a location, or nothing; where a program has
some other value in the place of a node, an issue about it has that value for its place. A message
is a text as a rule.
-/

namespace ObjectiveJ

inductive Severity where
  | note
  | warning
  | error
  deriving Repr, DecidableEq

def Severity.name : Severity → String
  | note => "note"
  | warning => "warning"
  | error => "error"

structure Note where
  message : Value
  place : Value
  line : Value

structure Issue where
  severity : Severity
  message : Value
  place : Value
  line : Value
  notes : List Note := []

namespace Value

def lead (place : Value) (message : String) : String :=
  if place.truthy then place.display ++ ": " ++ message else message

def report (place : Value) (severity : Severity) (message line : Value) : List String :=
  place.lead (severity.name ++ ": " ++ message.display) :: Location.excerpt place.location? line

def canShow (place line : Value) : Bool :=
  match place.location? with
  | some l => line.isNull || l.hasColumn
  | none => true

end Value

namespace Issue

def isError (i : Issue) : Bool := i.severity = .error

def isWarning (i : Issue) : Bool := i.severity = .warning

def text (i : Issue) : String :=
  "\n".intercalate (i.place.report i.severity i.message i.line ++
    i.notes.flatMap fun n => n.place.report .note n.message n.line)

def canShow (i : Issue) : Bool :=
  i.place.canShow i.line && i.notes.all fun n => n.place.canShow n.line

def errors (issues : List Issue) : Nat := issues.countP isError

def warnings (issues : List Issue) : Nat := issues.countP isWarning

def counted (n : Nat) (thing : String) : String :=
  (n : Int).repr ++ " " ++ thing ++ if n = 1 then "" else "s"

def report (issues : List Issue) : String :=
  "\n".intercalate ((issues.flatMap fun i => [i.text, ""]) ++
    [counted (errors issues) "error" ++ ", " ++ counted (warnings issues) "warning"])

end Issue

end ObjectiveJ
