import ObjectiveJ.Tree.Basic

/-!
# Numbered trees

The nodes of a program are told apart by their numbers, which are given out in the order of the
program text.
-/

namespace ObjectiveJ

mutual

def Value.numbered : Value → StateM Nat Value
  | .tree t => return .tree (← t.numbered)
  | .list items => return .list (← numberedItems items)
  | .tuple items => return .tuple (← numberedItems items)
  | .accessors property getter setter readonly readwrite copy =>
    return .accessors (← property.numbered) (← getter.numbered) (← setter.numbered)
      (← readonly.numbered) (← readwrite.numbered) (← copy.numbered)
  | v => return v

def Tree.numbered : Tree → StateM Nat Tree
  | ⟨type, span, fields, _⟩ => do
    let number ← modifyGet fun n => (n, n + 1)
    return { type, span, fields := ← numberedFields fields, number }

def numberedItems : List Value → StateM Nat (List Value)
  | [] => return []
  | item :: rest => return (← item.numbered) :: (← numberedItems rest)

def numberedFields : List (String × Value) → StateM Nat (List (String × Value))
  | [] => return []
  | (name, value) :: rest => return (name, ← value.numbered) :: (← numberedFields rest)

end

end ObjectiveJ
