/-!
# JSON values

JSON values as a program meets them: the members of an object keep their order, and a number is
either whole, of any size, or a double, depending on how it was written.
-/

namespace ObjectiveJ

inductive Json where
  | null
  | bool (value : Bool)
  | int (value : Int)
  | float (value : Float)
  | str (value : String)
  | arr (items : List Json)
  | obj (members : List (String × Json))
  deriving Inhabited

namespace Json

def maxDigits : Nat := 4300

def get? (j : Json) (key : String) : Option Json :=
  match j with
  | .obj members => members.lookup key
  | _ => none

def get (j : Json) (key : String) : Json := (j.get? key).getD .null

def hasKey (j : Json) (key : String) : Bool := (j.get? key).isSome

/-- Nothing, zero and whatever is empty are false; every other value is true. -/
def truthy : Json → Bool
  | .null => false
  | .bool b => b
  | .int n => n != 0
  | .float x => x != 0.0
  | .str s => !s.isEmpty
  | .arr items => !items.isEmpty
  | .obj members => !members.isEmpty

def isNull : Json → Bool
  | .null => true
  | _ => false

def isObject : Json → Bool
  | .obj _ => true
  | _ => false

def str? : Json → Option String
  | .str s => some s
  | _ => none

def whole? : Json → Option Int
  | .int n => some n
  | .bool b => some (if b then 1 else 0)
  | _ => none

/-- The values one after another: the items of a list, the characters of a text, or the names of the
members of an object. -/
def items? : Json → Option (List Json)
  | .arr items => some items
  | .str s => some (s.toList.map fun c => .str (String.singleton c))
  | .obj members => some (members.map fun (name, _) => .str name)
  | _ => none

/-- The member of an object set to a value: in its place if the key is there, else at the end. -/
def setMember (key : String) (value : Json) :
    List (String × Json) → List (String × Json)
  | [] => [(key, value)]
  | (k, v) :: rest => if k = key then (k, value) :: rest else (k, v) :: setMember key value rest

/-- The members in the order of their first mention, each with its last value. -/
def ofPairs (pairs : List (String × Json)) : Json :=
  .obj (pairs.foldl (fun members (k, v) => setMember k v members) [])

theorem sizeOf_lookup_lt {key : String} {v : Json} {members : List (String × Json)}
    (h : members.lookup key = some v) : sizeOf v < sizeOf members := by
  induction members with
  | nil => simp at h
  | cons m rest ih =>
    obtain ⟨k, w⟩ := m
    rw [List.lookup_cons] at h
    split at h
    · cases h
      simp
      omega
    · have := ih h
      simp
      omega

theorem sizeOf_get?_lt {key : String} {v j : Json} (h : j.get? key = some v) :
    sizeOf v < sizeOf j := by
  cases j with
  | obj members =>
    have : sizeOf v < sizeOf members := sizeOf_lookup_lt h
    simp
    omega
  | _ => simp [get?] at h

/-- A value that is inside another one. -/
abbrev Part (j : Json) : Type := { v : Json // sizeOf v < sizeOf j }

def part? (j : Json) (key : String) : Option j.Part :=
  match h : j.get? key with
  | some v => some ⟨v, sizeOf_get?_lt h⟩
  | none => none

end Json

end ObjectiveJ
