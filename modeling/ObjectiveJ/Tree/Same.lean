import ObjectiveJ.Tree.Basic

/-!
# Equal values

Two values are equal if they say the same: numbers by what they count, lists by their items, objects
by their members in any order. A node equals only itself, and a double that is no number not even
that.
-/

namespace ObjectiveJ

mutual

def Json.same : Json → Json → Bool
  | .arr a, .arr b => sameJsonItems a b
  | .obj a, .obj b => a.length = b.length && sameMembers a b
  | .float x, .float y => x == y
  | a, b => match a.key?, b.key? with
    | some a, some b => a = b
    | _, _ => false

def sameJsonItems : List Json → List Json → Bool
  | [], [] => true
  | a :: as, b :: bs => a.same b && sameJsonItems as bs
  | _, _ => false

def sameMembers : List (String × Json) → List (String × Json) → Bool
  | [], _ => true
  | (name, a) :: rest, others =>
    (match others.lookup name with
      | some b => a.same b
      | none => false) && sameMembers rest others

end

mutual

def Value.same : Value → Value → Bool
  | .data a, .data b => a.same b
  | .list a, .list b => sameItems a b
  | .tuple a, .tuple b => sameItems a b
  | .location a, .location b => a.same b
  | .tree a, .tree b => a.number = b.number
  | .accessors a b c d e f, .accessors a' b' c' d' e' f' =>
    a.same a' && b.same b' && c.same c' && d.same d' && e.same e' && f.same f'
  | _, _ => false

def sameItems : List Value → List Value → Bool
  | [], [] => true
  | a :: as, b :: bs => a.same b && sameItems as bs
  | _, _ => false

def Location.same : Location → Location → Bool
  | ⟨file, line, column⟩, other =>
    file.same other.file && line.same other.line && column.same other.column

end

end ObjectiveJ
