import ObjectiveJ.Tree.Basic

/-!
# The nodes of a tree in order

The nodes below a node are those of its fields: one node, the nodes of a list, or the names of an
accessor clause. A list in a list is not searched.
-/

namespace ObjectiveJ

mutual

def Tree.preorder : Tree → List NodeType
  | ⟨type, _, fields, _⟩ => type :: preorderFields fields

def preorderFields : List (String × Value) → List NodeType
  | [] => []
  | (_, value) :: rest => preorderValue value ++ preorderFields rest

def preorderValue : Value → List NodeType
  | .tree t => t.preorder
  | .list items => preorderItems items
  | .accessors property getter setter _ _ _ =>
    preorderName property ++ preorderName getter ++ preorderName setter
  | _ => []

def preorderItems : List Value → List NodeType
  | [] => []
  | .tree t :: rest => t.preorder ++ preorderItems rest
  | _ :: rest => preorderItems rest

def preorderName : Value → List NodeType
  | .tree t => t.preorder
  | _ => []

end

end ObjectiveJ
