import ObjectiveJ.Tree.Basic

/-!
# The height of a tree

How deep nodes and lists are nested in a value. A walk from a value to its parts, their parts and so
on takes fewer steps than that.
-/

namespace ObjectiveJ

mutual

def Value.height : Value → Nat
  | .tree t => t.height
  | .list items => heightOfItems items + 1
  | .tuple items => heightOfItems items + 1
  | .accessors property getter setter readonly readwrite copy =>
    max (max property.height (max getter.height setter.height))
      (max readonly.height (max readwrite.height copy.height)) + 1
  | _ => 1

def Tree.height : Tree → Nat
  | ⟨_, _, fields, _⟩ => heightOfFields fields + 1

def heightOfItems : List Value → Nat
  | [] => 0
  | v :: rest => max v.height (heightOfItems rest)

def heightOfFields : List (String × Value) → Nat
  | [] => 0
  | (_, v) :: rest => max v.height (heightOfFields rest)

end

end ObjectiveJ
