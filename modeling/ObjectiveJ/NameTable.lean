import ObjectiveJ.Table
import ObjectiveJ.Tree.Basic

/-!
# Tables of names

Values under names. Names with the same key are the same name, and a table remembers how each name
was written first.
-/

namespace ObjectiveJ

/-- Values under names, in order of insertion, each with its name as it was written first. -/
structure NameTable (α : Type) where
  entries : Table Key (Value × α)

namespace NameTable

variable {α : Type}

def empty : NameTable α := ⟨{}⟩

instance : EmptyCollection (NameTable α) := ⟨empty⟩

instance : Inhabited (NameTable α) := ⟨empty⟩

def names (t : NameTable α) : List Value := t.entries.values.map (·.1)

def values (t : NameTable α) : List α := t.entries.values.map (·.2)

def pairs (t : NameTable α) : List (Value × α) := t.entries.values

def get? (t : NameTable α) (key : Key) : Option α := (t.entries.get? key).map (·.2)

def contains (t : NameTable α) (key : Key) : Bool := t.entries.contains key

/-- The table with a value under a name, which is written as before if it is known. -/
def set (t : NameTable α) (key : Key) (name : Value) (value : α) : NameTable α :=
  let name := ((t.entries.get? key).map (·.1)).getD name
  ⟨t.entries.set key (name, value)⟩

def erase (t : NameTable α) (key : Key) : NameTable α := ⟨t.entries.erase key⟩

@[simp] theorem get?_set_self (t : NameTable α) (key : Key) (name : Value) (value : α) :
    (t.set key name value).get? key = some value := by
  simp [get?, set]

theorem get?_set_ne (t : NameTable α) {key other : Key} (h : other ≠ key) (name : Value)
    (value : α) : (t.set key name value).get? other = t.get? other := by
  simp [get?, set, Table.get?_set_ne _ h]

end NameTable

end ObjectiveJ
