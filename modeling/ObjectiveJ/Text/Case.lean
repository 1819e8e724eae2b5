import ObjectiveJ.Text.CaseTable
import ObjectiveJ.Text.ClassTable

/-!
# Letters and their case

Lower and upper case forms of a text. One character may become several, and the lower case form of a
capital sigma depends on what stands around it: at the end of a word it is the final one.
-/

namespace ObjectiveJ.Text

def imageIn (runs : List (Nat × Nat × Nat × Nat)) (n : Nat) : Option Nat :=
  (runs.find? fun (first, last, step, _) => first ≤ n && n ≤ last && (n - first) % step == 0).map
    fun (first, _, _, image) => image + (n - first)

def mapCase (runs : List (Nat × Nat × Nat × Nat)) (expansions : List (Nat × List Nat)) (c : Char) :
    List Char :=
  match expansions.lookup c.toNat with
  | some codes => codes.map Char.ofNat
  | none => match imageIn runs c.toNat with
    | some image => [Char.ofNat image]
    | none => [c]

def upperChar (c : Char) : List Char := mapCase upperRuns upperExpansions c

def lowerChar (c : Char) : List Char := mapCase lowerRuns lowerExpansions c

def isCased (c : Char) : Bool := inTurns casedTurns c.toNat

def isCaseIgnorable (c : Char) : Bool := inTurns caseIgnorableTurns c.toNat

def isLetter (c : Char) : Bool := inTurns letterTurns c.toNat

def isUpperCase (c : Char) : Bool :=
  lowerChar c != [c] && upperChar c == [c] || inTurns unpairedTurns c.toNat

def meetsCased (cs : List Char) : Bool :=
  match cs.dropWhile isCaseIgnorable with
  | [] => false
  | c :: _ => isCased c

/-- The lower case form of a text whose characters before it are `before`, the nearest first. -/
def lowerFrom (before : List Char) : List Char → List Char
  | [] => []
  | c :: rest =>
    let here :=
      if c = 'Σ' then if meetsCased before && !meetsCased rest then ['ς'] else ['σ']
      else lowerChar c
    here ++ lowerFrom (c :: before) rest

def lower (s : String) : String := String.ofList (lowerFrom [] s.toList)

def capitalize (s : String) : String :=
  match s.toList with
  | [] => ""
  | c :: rest => String.ofList (upperChar c ++ rest)

end ObjectiveJ.Text
