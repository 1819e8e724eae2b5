import ObjectiveJ.Proofs.Tree

/-!
# The nodes of a program

All nodes at or below a value. Those of a part are among those of the whole, and numbering a program
changes nothing but the numbers of its nodes, so what is said of every node of a program holds of
every node that a walk through the numbered program meets. The numbers tell the nodes apart
(`Value.numberedFrom`).
-/

namespace ObjectiveJ

variable {v : Value}

mutual

/-- The nodes at or below a value, parents first. -/
def Value.nodes : Value → List Tree
  | .tree t => t.nodes
  | .list items => nodesOfItems items
  | .tuple items => nodesOfItems items
  | .accessors property getter setter readonly readwrite copy =>
    property.nodes ++ getter.nodes ++ setter.nodes ++ readonly.nodes ++
      readwrite.nodes ++ copy.nodes
  | _ => []

def Tree.nodes : Tree → List Tree
  | ⟨type, span, fields, number⟩ => ⟨type, span, fields, number⟩ :: nodesOfFields fields

def nodesOfItems : List Value → List Tree
  | [] => []
  | item :: rest => item.nodes ++ nodesOfItems rest

def nodesOfFields : List (String × Value) → List Tree
  | [] => []
  | (_, value) :: rest => value.nodes ++ nodesOfFields rest

end

/-! ### Parts -/

theorem Tree.nodes_eq (t : Tree) : t.nodes = t :: nodesOfFields t.fields := by
  obtain ⟨type, span, fields, number⟩ := t
  rw [Tree.nodes]

theorem nodes_subset_nodesOfItems {items : List Value} (hv : v ∈ items) :
    v.nodes ⊆ nodesOfItems items := by
  induction items with
  | nil => cases hv
  | cons item rest ih =>
    rw [nodesOfItems]
    rcases List.mem_cons.1 hv with rfl | hv
    · exact List.subset_append_left ..
    · exact List.Subset.trans (ih hv) (List.subset_append_right ..)

theorem nodes_subset_nodesOfFields {fields : List (String × Value)} {name : String}
    (h : fields.lookup name = some v) : v.nodes ⊆ nodesOfFields fields := by
  induction fields with
  | nil => cases h
  | cons entry rest ih =>
    obtain ⟨key, value⟩ := entry
    rw [List.lookup_cons] at h
    rw [nodesOfFields]
    split at h
    · cases h
      exact List.subset_append_left ..
    · exact List.Subset.trans (ih h) (List.subset_append_right ..)

theorem Value.nodes_part? {w : Value} {name : String} (h : v.part? name = some w) :
    w.nodes ⊆ v.nodes := by
  cases v with
  | tree t =>
    rw [Value.nodes, Tree.nodes_eq]
    exact List.Subset.trans (nodes_subset_nodesOfFields h) (List.subset_cons_self ..)
  | accessors property getter setter readonly readwrite copy =>
    have hnodes := nodes_subset_nodesOfFields h
    simpa only [nodesOfFields, Value.nodes, List.append_nil, List.append_assoc] using hnodes
  | data | list | tuple | location => cases h

mutual

theorem Value.nodes_ofJson (j : Json) : (Value.ofJson j).nodes = [] := by
  cases j with
  | arr items =>
    rw [Value.ofJson, Value.nodes]
    exact nodesOfItems_ofItems items
  | null | bool | int | float | str | obj => rw [Value.ofJson] <;> simp [Value.nodes]

theorem nodesOfItems_ofItems (items : List Json) : nodesOfItems (Value.ofItems items) = [] := by
  cases items with
  | nil => rw [Value.ofItems, nodesOfItems]
  | cons item rest =>
    rw [Value.ofItems, nodesOfItems, Value.nodes_ofJson item, nodesOfItems_ofItems rest]
    rfl

end

theorem Value.nodes_items? {w : Value} {ws : List Value} (h : v.items? = some ws) (hw : w ∈ ws) :
    w.nodes ⊆ v.nodes := by
  cases v with
  | list items | tuple items =>
    cases h
    rw [Value.nodes]
    exact nodes_subset_nodesOfItems hw
  | data j =>
    obtain ⟨items, _, rfl⟩ := Option.map_eq_some_iff.1 h
    have hnone := nodes_subset_nodesOfItems hw
    rw [nodesOfItems_ofItems] at hnone
    exact List.Subset.trans hnone (List.nil_subset _)
  | location | tree | accessors => cases h

/-! ### Numbers -/

section Numbered

variable {p : Tree → Prop}

mutual

/-- What holds of the nodes of a program whatever their numbers are holds of those of the numbered
program. -/
theorem Value.nodes_numbered (hp : ∀ t n, p t → p (t.numbered.run n).1) (v : Value) (n : Nat)
    (h : ∀ t ∈ v.nodes, p t) : ∀ t ∈ (v.numbered.run n).1.nodes, p t := by
  cases v with
  | tree t =>
    rw [Value.nodes] at h
    rw [Value.numbered_tree, Value.nodes]
    exact Tree.nodes_numbered hp t n h
  | list items =>
    rw [Value.nodes] at h
    rw [Value.numbered_list, Value.nodes]
    exact nodesOfItems_numbered hp items n h
  | tuple items =>
    rw [Value.nodes] at h
    rw [Value.numbered_tuple, Value.nodes]
    exact nodesOfItems_numbered hp items n h
  | accessors property getter setter readonly readwrite copy =>
    obtain ⟨_, _, _, _, _, hrun⟩ :=
      Value.numbered_accessors property getter setter readonly readwrite copy n
    rw [hrun]
    simp only [Value.nodes, List.mem_append, or_imp, forall_and] at h ⊢
    obtain ⟨⟨⟨⟨⟨h₁, h₂⟩, h₃⟩, h₄⟩, h₅⟩, h₆⟩ := h
    exact ⟨⟨⟨⟨⟨Value.nodes_numbered hp property _ h₁, Value.nodes_numbered hp getter _ h₂⟩,
      Value.nodes_numbered hp setter _ h₃⟩, Value.nodes_numbered hp readonly _ h₄⟩,
      Value.nodes_numbered hp readwrite _ h₅⟩, Value.nodes_numbered hp copy _ h₆⟩
  | data j =>
    rw [Value.numbered_data]
    exact h
  | location l =>
    rw [Value.numbered] <;> simp [Value.nodes]

theorem Tree.nodes_numbered (hp : ∀ t n, p t → p (t.numbered.run n).1) (t : Tree) (n : Nat)
    (h : ∀ u ∈ t.nodes, p u) : ∀ u ∈ (t.numbered.run n).1.nodes, p u := by
  obtain ⟨type, span, fields, number⟩ := t
  rw [Tree.nodes] at h
  intro u hu
  rw [Tree.nodes_eq] at hu
  rcases List.mem_cons.1 hu with rfl | hu
  · exact hp _ n (h _ (.head _))
  · rw [Tree.numbered_run] at hu
    exact nodesOfFields_numbered hp fields (n + 1) (fun v hv => h v (.tail _ hv)) u hu

theorem nodesOfItems_numbered (hp : ∀ t n, p t → p (t.numbered.run n).1)
    (items : List Value) (n : Nat) (h : ∀ t ∈ nodesOfItems items, p t) :
    ∀ t ∈ nodesOfItems ((numberedItems items).run n).1, p t := by
  cases items with
  | nil =>
    rw [numberedItems_nil]
    exact h
  | cons item rest =>
    rw [numberedItems_cons]
    simp only [nodesOfItems, List.mem_append, or_imp, forall_and] at h ⊢
    exact ⟨Value.nodes_numbered hp item _ h.1, nodesOfItems_numbered hp rest _ h.2⟩

theorem nodesOfFields_numbered (hp : ∀ t n, p t → p (t.numbered.run n).1)
    (fields : List (String × Value)) (n : Nat) (h : ∀ t ∈ nodesOfFields fields, p t) :
    ∀ t ∈ nodesOfFields ((numberedFields fields).run n).1, p t := by
  cases fields with
  | nil =>
    rw [numberedFields]
    exact h
  | cons entry rest =>
    obtain ⟨key, value⟩ := entry
    rw [numberedFields_cons]
    simp only [nodesOfFields, List.mem_append, or_imp, forall_and] at h ⊢
    exact ⟨Value.nodes_numbered hp value _ h.1, nodesOfFields_numbered hp rest _ h.2⟩

end

end Numbered

/-- Nodes that have the numbers from one on up to another one, in order. -/
def NumberedFrom (n m : Nat) (ts : List Tree) : Prop :=
  m = n + ts.length ∧ ts.map Tree.number = List.range' n ts.length

theorem NumberedFrom.append {n m k : Nat} {ts us : List Tree} (h : NumberedFrom n m ts)
    (h' : NumberedFrom m k us) : NumberedFrom n k (ts ++ us) := by
  obtain ⟨rfl, hts⟩ := h
  obtain ⟨rfl, hus⟩ := h'
  rw [NumberedFrom, List.map_append, hts, hus, List.length_append, List.range'_append_1]
  exact ⟨Nat.add_assoc .., rfl⟩

mutual

/-- The nodes of a numbered value are numbered one after another, parents first. -/
theorem Value.numberedFrom (v : Value) (n : Nat) :
    NumberedFrom n (v.numbered.run n).2 (v.numbered.run n).1.nodes := by
  cases v with
  | tree t =>
    rw [Value.numbered]
    exact Tree.numberedFrom t n
  | list items =>
    rw [Value.numbered]
    exact numberedFrom_items items n
  | tuple items =>
    rw [Value.numbered]
    exact numberedFrom_items items n
  | accessors property getter setter readonly readwrite copy =>
    rw [Value.numbered]
    exact (((((Value.numberedFrom property _).append (Value.numberedFrom getter _)).append
      (Value.numberedFrom setter _)).append (Value.numberedFrom readonly _)).append
      (Value.numberedFrom readwrite _)).append (Value.numberedFrom copy _)
  | data j =>
    rw [Value.numbered] <;> simp
    exact ⟨rfl, rfl⟩
  | location l =>
    rw [Value.numbered] <;> simp
    exact ⟨rfl, rfl⟩

theorem Tree.numberedFrom (t : Tree) (n : Nat) :
    NumberedFrom n (t.numbered.run n).2 (t.numbered.run n).1.nodes := by
  obtain ⟨type, span, fields, number⟩ := t
  rw [Tree.numbered]
  have hself (t : Tree) (ht : t.number = n) : NumberedFrom n (n + 1) [t] := by
    rw [NumberedFrom, List.map_singleton, ht]
    exact ⟨rfl, rfl⟩
  exact (hself _ rfl).append (numberedFrom_fields fields (n + 1))

theorem numberedFrom_items (items : List Value) (n : Nat) :
    NumberedFrom n ((numberedItems items).run n).2
      (nodesOfItems ((numberedItems items).run n).1) := by
  cases items with
  | nil =>
    rw [numberedItems]
    exact ⟨rfl, rfl⟩
  | cons item rest =>
    rw [numberedItems]
    exact (Value.numberedFrom item n).append (numberedFrom_items rest _)

theorem numberedFrom_fields (fields : List (String × Value)) (n : Nat) :
    NumberedFrom n ((numberedFields fields).run n).2
      (nodesOfFields ((numberedFields fields).run n).1) := by
  cases fields with
  | nil =>
    rw [numberedFields]
    exact ⟨rfl, rfl⟩
  | cons entry rest =>
    obtain ⟨name, value⟩ := entry
    rw [numberedFields]
    exact (Value.numberedFrom value n).append (numberedFrom_fields rest _)

end

end ObjectiveJ
