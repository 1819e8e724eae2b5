/-!
# Tables

A table maps names to values and remembers the order in which the names came in. Setting a name
that is already there keeps its place. Any type with decidable equality may serve for the names.
-/

namespace ObjectiveJ

structure Table (κ α : Type) where
  entries : List (κ × α)

namespace Table

variable {κ α β : Type}

def empty : Table κ α := ⟨[]⟩

instance : EmptyCollection (Table κ α) := ⟨empty⟩

instance : Inhabited (Table κ α) := ⟨empty⟩

def names (t : Table κ α) : List κ := t.entries.map (·.1)

def values (t : Table κ α) : List α := t.entries.map (·.2)

def size (t : Table κ α) : Nat := t.entries.length

def map (f : α → β) (t : Table κ α) : Table κ β := ⟨t.entries.map fun (k, v) => (k, f v)⟩

variable [DecidableEq κ]

def get? (t : Table κ α) (name : κ) : Option α := t.entries.lookup name

def contains (t : Table κ α) (name : κ) : Bool := (t.get? name).isSome

def setEntry (name : κ) (value : α) : List (κ × α) → List (κ × α)
  | [] => [(name, value)]
  | (k, v) :: rest => if k = name then (k, value) :: rest else (k, v) :: setEntry name value rest

def set (t : Table κ α) (name : κ) (value : α) : Table κ α := ⟨setEntry name value t.entries⟩

def setDefault (t : Table κ α) (name : κ) (value : α) : Table κ α :=
  if t.contains name then t else t.set name value

def erase (t : Table κ α) (name : κ) : Table κ α := ⟨t.entries.filter (·.1 ≠ name)⟩

def merge (t other : Table κ α) : Table κ α := other.entries.foldl (fun t (k, v) => t.set k v) t

def ofList (pairs : List (κ × α)) : Table κ α := merge empty ⟨pairs⟩

@[simp] theorem get?_empty (name : κ) : (empty : Table κ α).get? name = none := rfl

theorem lookup_setEntry_self (name : κ) (value : α) (entries : List (κ × α)) :
    (setEntry name value entries).lookup name = some value := by
  induction entries with
  | nil => simp [setEntry]
  | cons e rest ih =>
    obtain ⟨k, v⟩ := e
    by_cases h : k = name
    · simp [setEntry, h]
    · have hb : (name == k) = false := by simp [Ne.symm h]
      simp [setEntry, h, List.lookup_cons, hb, ih]

theorem lookup_setEntry_ne {name other : κ} (h : other ≠ name) (value : α)
    (entries : List (κ × α)) :
    (setEntry name value entries).lookup other = entries.lookup other := by
  induction entries with
  | nil => simp [setEntry, h]
  | cons e rest ih =>
    obtain ⟨k, v⟩ := e
    by_cases hk : k = name
    · have hb : (other == name) = false := by simp [h]
      simp [setEntry, hk, List.lookup_cons, hb]
    · simp [setEntry, hk, List.lookup_cons, ih]

theorem mem_setEntry {name : κ} {value : α} {entries : List (κ × α)} {e : κ × α}
    (he : e ∈ setEntry name value entries) : e ∈ entries ∨ e = (name, value) := by
  induction entries with
  | nil => exact .inr (List.mem_singleton.1 he)
  | cons e' rest ih =>
    rw [setEntry] at he
    split at he
    · rename_i hname
      rcases List.mem_cons.1 he with rfl | he
      · exact .inr (by rw [hname])
      · exact .inl (.tail _ he)
    · rcases List.mem_cons.1 he with rfl | he
      · exact .inl (.head _)
      · exact (ih he).imp_left (List.mem_cons_of_mem _)

theorem mem_of_lookup {name : κ} {value : α} {entries : List (κ × α)}
    (h : entries.lookup name = some value) : (name, value) ∈ entries := by
  induction entries with
  | nil => cases h
  | cons e rest ih =>
    rw [List.lookup_cons] at h
    split at h
    · rename_i hname
      cases h
      rw [eq_of_beq hname]
      exact .head _
    · exact List.mem_cons_of_mem _ (ih h)

@[simp] theorem get?_set_self (t : Table κ α) (name : κ) (value : α) :
    (t.set name value).get? name = some value :=
  lookup_setEntry_self name value t.entries

theorem get?_set_ne (t : Table κ α) {name other : κ} (h : other ≠ name) (value : α) :
    (t.set name value).get? other = t.get? other :=
  lookup_setEntry_ne h value t.entries

end Table

end ObjectiveJ
