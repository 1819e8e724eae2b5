import ObjectiveJ.Text.Basic
import ObjectiveJ.Tree.Basic

/-!
# Source locations

The excerpt that messages show below their first line: the text of the source line at a location
and a caret under the column.
-/

namespace ObjectiveJ.Location

def lineIn? (lines : Array String) (l : Location) : Option (Option String) :=
  match l.line with
  | .data (.float x) => if 1.0 ≤ x ∧ x ≤ lines.size.toFloat then none else some none
  | line => line.whole?.map fun n => if 1 ≤ n then lines[(n - 1).toNat]? else none

def excerpt (l : Option Location) (line : Value) : List String :=
  match l with
  | some l =>
    if line.isNull then []
    else
      let shown := "    " ++ line.display
      let column := l.column.whole?.getD 0
      if 0 < column then [shown, String.ofList (List.replicate (column + 3).toNat ' ') ++ "^"]
      else [shown]
  | none => []

/-- Whether the column tells where a caret stands, and the line with the caret is not too long. -/
def hasColumn (l : Location) : Bool :=
  match l.column with
  | .data (.float x) => !(0.0 < x)
  | column => match column.whole? with
    | some n => n ≤ Text.sizeLimit
    | none => false

end ObjectiveJ.Location
