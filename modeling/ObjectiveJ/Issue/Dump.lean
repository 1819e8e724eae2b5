import ObjectiveJ.Issue
import ObjectiveJ.Tree.Dump

/-!
# Issues as JSON

A view of issues for tools. An issue whose place is something else than a location has none.
-/

namespace ObjectiveJ

def Value.placeJson? : Value → Option Json
  | .null => some .null
  | .location l => l.toJson?
  | _ => none

def jsonOfIssue? (severity : Severity) (message place line : Value) (notes : List Json) :
    Option Json := do
  return .obj [("severity", .str severity.name), ("message", ← message.plain?),
    ("loc", ← place.placeJson?), ("line", ← line.plain?), ("notes", .arr notes)]

def Note.toJson? (n : Note) : Option Json := jsonOfIssue? .note n.message n.place n.line []

def Issue.toJson? (i : Issue) : Option Json := do
  jsonOfIssue? i.severity i.message i.place i.line (← i.notes.mapM Note.toJson?)

end ObjectiveJ
