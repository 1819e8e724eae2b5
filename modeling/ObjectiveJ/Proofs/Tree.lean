import ObjectiveJ.Tree.Height
import ObjectiveJ.Tree.Number
import ObjectiveJ.Tree.Plain

/-!
# Parts of trees

The parts of a node are less high than the node, so a walk that goes from a node to its parts ends.
Numbering the nodes of a tree changes nothing else: a part of the numbered node is the numbered
part.
-/

namespace ObjectiveJ

variable {name : String} {v : Value} {fields : List (String × Value)} {t : Tree}

/-! ### Heights -/

theorem height_le_heightOfFields (h : fields.lookup name = some v) :
    v.height ≤ heightOfFields fields := by
  induction fields with
  | nil => cases h
  | cons entry rest ih =>
    obtain ⟨key, value⟩ := entry
    rw [List.lookup_cons] at h
    rw [heightOfFields]
    split at h
    · cases h
      exact Nat.le_max_left ..
    · exact Nat.le_trans (ih h) (Nat.le_max_right ..)

theorem height_le_heightOfItems {items : List Value} (h : v ∈ items) :
    v.height ≤ heightOfItems items := by
  induction items with
  | nil => cases h
  | cons item rest ih =>
    rw [heightOfItems]
    rcases List.mem_cons.1 h with rfl | h
    · exact Nat.le_max_left ..
    · exact Nat.le_trans (ih h) (Nat.le_max_right ..)

theorem Tree.height_get?_lt (h : t.get? name = some v) : v.height < t.height := by
  obtain ⟨type, span, fields, number⟩ := t
  rw [Tree.height]
  exact Nat.lt_succ_of_le (height_le_heightOfFields h)

theorem Tree.height_item_lt {items : List Value} (h : t.get? name = some (.list items))
    (hv : v ∈ items) : v.height < t.height := by
  have hlist := t.height_get?_lt h
  rw [Value.height] at hlist
  exact Nat.lt_trans (Nat.lt_succ_of_le (height_le_heightOfItems hv)) hlist

/-! ### Numbers -/

section Equations

attribute [local simp] Value.numbered Tree.numbered numberedItems numberedFields

theorem numberedFields_cons (name : String) (v : Value) (rest : List (String × Value)) (n : Nat) :
    ((numberedFields ((name, v) :: rest)).run n).1 =
      (name, (v.numbered.run n).1) :: ((numberedFields rest).run (v.numbered.run n).2).1 := by
  rw [numberedFields]
  rfl

theorem lookup_numberedFields (h : fields.lookup name = some v) (n : Nat) :
    ∃ m, ((numberedFields fields).run n).1.lookup name = some (v.numbered.run m).1 := by
  induction fields generalizing n with
  | nil => cases h
  | cons entry rest ih =>
    obtain ⟨key, value⟩ := entry
    rw [List.lookup_cons] at h
    rw [numberedFields_cons, List.lookup_cons]
    split at h
    · rename_i hkey
      cases h
      exact ⟨n, by simp⟩
    · rename_i hkey
      obtain ⟨m, hm⟩ := ih h (value.numbered.run n).2
      exact ⟨m, by simpa [hkey] using hm⟩

theorem lookup_of_numberedFields {w : Value} {n : Nat}
    (h : ((numberedFields fields).run n).1.lookup name = some w) :
    ∃ v m, fields.lookup name = some v ∧ w = (v.numbered.run m).1 := by
  induction fields generalizing n with
  | nil =>
    rw [numberedFields] at h
    cases h
  | cons entry rest ih =>
    obtain ⟨key, value⟩ := entry
    rw [numberedFields_cons, List.lookup_cons] at h
    rw [List.lookup_cons]
    split at h
    · exact ⟨value, n, by simp, (Option.some.inj h).symm⟩
    · rename_i hkey
      simpa [hkey] using ih h

theorem Tree.numbered_run (t : Tree) (n : Nat) :
    (t.numbered.run n).1 =
      { t with fields := ((numberedFields t.fields).run (n + 1)).1, number := n } := by
  obtain ⟨type, span, fields, number⟩ := t
  rw [Tree.numbered]
  rfl

/-- A part of a numbered node is the part of the node, numbered. -/
theorem Tree.get?_numbered (h : t.get? name = some v) (n : Nat) :
    ∃ m, (t.numbered.run n).1.get? name = some (v.numbered.run m).1 := by
  rw [numbered_run]
  exact lookup_numberedFields h (n + 1)

theorem Tree.get?_of_numbered {w : Value} {n : Nat} (h : (t.numbered.run n).1.get? name = some w) :
    ∃ v m, t.get? name = some v ∧ w = (v.numbered.run m).1 := by
  rw [numbered_run] at h
  exact lookup_of_numberedFields h

@[simp] theorem Tree.numbered_type (t : Tree) (n : Nat) : (t.numbered.run n).1.type = t.type := by
  rw [numbered_run]

@[simp] theorem Tree.numbered_location (t : Tree) (n : Nat) :
    (t.numbered.run n).1.location = t.location := by
  rw [numbered_run]
  rfl

@[simp] theorem Value.numbered_data (j : Json) (n : Nat) :
    ((Value.data j).numbered.run n).1 = .data j := by
  rw [Value.numbered] <;> simp
  rfl

theorem Value.numbered_tree (t : Tree) (n : Nat) :
    ((Value.tree t).numbered.run n).1 = .tree (t.numbered.run n).1 := by
  rw [Value.numbered]
  rfl

theorem Value.numbered_list (items : List Value) (n : Nat) :
    ((Value.list items).numbered.run n).1 = .list ((numberedItems items).run n).1 := by
  rw [Value.numbered]
  rfl

theorem Value.numbered_tuple (items : List Value) (n : Nat) :
    ((Value.tuple items).numbered.run n).1 = .tuple ((numberedItems items).run n).1 := by
  rw [Value.numbered]
  rfl

theorem Value.numbered_accessors (property getter setter readonly readwrite copy : Value)
    (n : Nat) : ∃ n₂ n₃ n₄ n₅ n₆,
      ((Value.accessors property getter setter readonly readwrite copy).numbered.run n).1 =
        .accessors (property.numbered.run n).1 (getter.numbered.run n₂).1 (setter.numbered.run n₃).1
          (readonly.numbered.run n₄).1 (readwrite.numbered.run n₅).1 (copy.numbered.run n₆).1 := by
  rw [Value.numbered]
  exact ⟨_, _, _, _, _, rfl⟩

/-- What is no node and no list is not changed by numbering. -/
theorem Value.eq_data_of_numbered {n : Nat} {j : Json} (h : (v.numbered.run n).1 = .data j) :
    v = .data j := by
  cases v with
  | data i => rwa [numbered_data] at h
  | list items =>
    rw [numbered_list] at h
    cases h
  | tuple items =>
    rw [numbered_tuple] at h
    cases h
  | tree t =>
    rw [numbered_tree] at h
    cases h
  | accessors property getter setter readonly readwrite copy =>
    obtain ⟨_, _, _, _, _, hrun⟩ :=
      numbered_accessors property getter setter readonly readwrite copy n
    rw [hrun] at h
    cases h
  | location l =>
    rw [numbered] at h
    · cases h
    all_goals simp

@[simp] theorem numberedItems_nil (n : Nat) : ((numberedItems []).run n).1 = [] := by
  rw [numberedItems]
  rfl

theorem numberedItems_cons (v : Value) (rest : List Value) (n : Nat) :
    ((numberedItems (v :: rest)).run n).1 =
      (v.numbered.run n).1 :: ((numberedItems rest).run (v.numbered.run n).2).1 := by
  rw [numberedItems]
  rfl

end Equations

@[simp] theorem Value.truthy_numbered (v : Value) (n : Nat) :
    (v.numbered.run n).1.truthy = v.truthy := by
  have hitems : ∀ items : List Value,
      ((numberedItems items).run n).1.isEmpty = items.isEmpty := by
    intro items
    cases items with
    | nil => simp
    | cons v items => simp [numberedItems_cons]
  cases v with
  | data j => rw [numbered_data]
  | list items => simp [numbered_list, truthy, hitems]
  | tuple items => simp [numbered_tuple, truthy, hitems]
  | location l =>
    rw [numbered] <;> simp
    rfl
  | tree t => simp [numbered_tree, truthy]
  | accessors =>
    rw [numbered]
    rfl

end ObjectiveJ
