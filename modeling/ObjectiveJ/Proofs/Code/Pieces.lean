import ObjectiveJ.Generate.Walk
import ObjectiveJ.Proofs.Code.Positions

/-!
# Code that is divided into the code of nodes

What stands in a buffer is a list of instructions, and those that were written for one node follow
one another. `Code` is such a list with the nodes marked: the code of a node starts with the hook
before it. It is `Faithful` if what is marked is what a walk through the node writes, and if no hook
before a node is left unmarked. So the nodes of faithful code are those whose code stands there,
each as often as it does.
-/

namespace ObjectiveJ

open Gen

/-- Parts of nodes that have hooks of their own. -/
def partTitles : List String := ["ElseStatement", "CaseStatement"]

def Instr.isOpening : Instr → Bool
  | .hook _ type (.plain key) _ => key = "before" && !partTitles.contains type
  | _ => false

/-- What an instruction writes, but for what the format has to say. -/
def Instr.chars : Instr → List Char
  | .text _ v _ => (v.text?.getD "").toList
  | .template _ s _ _ => s.toList
  | _ => []

def Manner.suits : Manner → Value → Bool
  | .plain, _ => true
  | .elseIf, v => v.isNode .ifStatement
  | .body _, v => v.isNode .blockStatement

/-- Instructions, with the code of nodes among them. The code of a node has a first instruction. -/
inductive Code where
  | nil
  | instr (i : Instr) (rest : Code)
  | node (t : Tree) (first : Instr) (inner rest : Code)

/-- Instructions that a walk through a node writes into the buffer where it is compiled. -/
def Tree.IsCode (t : Tree) (is : List Instr) : Prop :=
  ∃ n manner site s u, (walk n manner (.tree t) site).run.run s = (.ok (), u) ∧
    u.contents site.buffer = s.contents site.buffer ++ is

namespace Code

def append : Code → Code → Code
  | nil, d => d
  | instr i rest, d => instr i (rest.append d)
  | node t first inner rest, d => node t first inner (rest.append d)

instance : Append Code := ⟨append⟩

def flatten : Code → List Instr
  | nil => []
  | instr i rest => i :: rest.flatten
  | node _ first inner rest => first :: (inner.flatten ++ rest.flatten)

def nodes : Code → List Tree
  | nil => []
  | instr _ rest => rest.nodes
  | node t _ inner rest => t :: (inner.nodes ++ rest.nodes)

/-- The hooks before nodes are those that are marked, and what is marked is written for the node. -/
def Faithful : Code → Prop
  | nil => True
  | instr i rest => i.isOpening = false ∧ rest.Faithful
  | node t first inner rest => first.isOpening = true ∧ t.IsCode (first :: inner.flatten) ∧
      inner.Faithful ∧ rest.Faithful

def chars (c : Code) : List Char := c.flatten.flatMap Instr.chars

def tally (A : Account) (c : Code) : Multiset Tree :=
  ((c.nodes.filter A.counts : List Tree) : Multiset Tree)

variable {A : Account} {c d : Code}

@[simp] theorem nil_append (d : Code) : nil ++ d = d := rfl

theorem instr_append (i : Instr) (c d : Code) : instr i c ++ d = instr i (c ++ d) := rfl

theorem node_append (t : Tree) (first : Instr) (inner c d : Code) :
    node t first inner c ++ d = node t first inner (c ++ d) := rfl

@[simp] theorem flatten_append (c d : Code) : (c ++ d).flatten = c.flatten ++ d.flatten := by
  induction c with
  | nil => rfl
  | instr i rest ih => rw [instr_append, flatten, flatten, ih, List.cons_append]
  | node t first inner rest _ ih =>
    rw [node_append, flatten, flatten, ih, List.cons_append, List.append_assoc]

theorem nodes_append (c d : Code) : (c ++ d).nodes = c.nodes ++ d.nodes := by
  induction c with
  | nil => rfl
  | instr i rest ih => rw [instr_append, nodes, nodes, ih]
  | node t first inner rest _ ih =>
    rw [node_append, nodes, nodes, ih, List.cons_append, List.append_assoc]

@[simp] theorem chars_append (c d : Code) : (c ++ d).chars = c.chars ++ d.chars := by
  rw [chars, flatten_append, List.flatMap_append]
  rfl

@[simp] theorem tally_append (c d : Code) : (c ++ d).tally A = c.tally A + d.tally A := by
  rw [tally, nodes_append, coe_filter_append]
  rfl

@[simp] theorem tally_nil : nil.tally A = 0 := rfl

theorem Faithful.append (h : c.Faithful) (h' : d.Faithful) : (c ++ d).Faithful := by
  induction c with
  | nil => exact h'
  | instr i rest ih => exact ⟨h.1, ih h.2⟩
  | node t first inner rest _ ih => exact ⟨h.1, h.2.1, h.2.2.1, ih h.2.2.2⟩

theorem eq_nil_of_flatten (h : c.flatten = []) : c = nil := by
  cases c with
  | nil => rfl
  | instr => cases h
  | node => cases h

end Code

end ObjectiveJ
