import ObjectiveJ.Ancestry
import ObjectiveJ.Format.Basic

/-!
# Values of a format

A value of a format is a text or a choice. A choice looks at the statement before the node
(`$previous`) or at a parent of it (`$parent`, each one in a look-up one level further out) and
takes the entry of that neighbour's type, or else of the group of that type; `null` is the entry
for no neighbour. If no entry fits, the `*` entry of the innermost choice that has one is taken.
-/

namespace ObjectiveJ.Format

inductive Choice where
  | text (s : String)
  /-- The neighbour is of no format type: nothing is written. -/
  | nothing
  | noValue
  deriving Repr, DecidableEq

def given? (table : List (String × Json)) (key : String) : Option Json :=
  match table.lookup key with
  | some .null => none
  | found => found

/-- The neighbour by which a choice is made: its branches, the type of the neighbour and the number
of parents looked at so far. -/
structure Branch where
  value : Json
  neighbor : Option String
  parents : Nat

def branch? (ancestry : Option Ancestry) (type : String) (table : List (String × Json))
    (parents : Nat) : Option Branch :=
  match given? table "$previous" with
  | some value =>
    some { value, neighbor := ancestry.bind (·.previousType type), parents }
  | none => match given? table "$parent" with
    | some value =>
      some { value, neighbor := ancestry.bind (·.parentType type parents),
             parents := parents + 1 }
    | none => none

theorem sizeOf_option_pos (j : Option Json) : 0 < sizeOf j := by
  cases j with
  | none => exact Nat.zero_lt_one
  | some v => rw [Option.some.sizeOf_spec]; omega

theorem sizeOf_lookup_add {table : List (String × Json)} {key other : String} {v w : Json}
    (hne : key ≠ other) (hv : table.lookup key = some v) (hw : table.lookup other = some w) :
    sizeOf v + sizeOf w < sizeOf table := by
  induction table with
  | nil => simp at hv
  | cons m rest ih =>
    obtain ⟨k, x⟩ := m
    rw [List.lookup_cons] at hv hw
    split at hv
    · rename_i hk
      split at hw
      · rename_i hk'
        exact absurd ((beq_iff_eq.1 hk).trans (beq_iff_eq.1 hk').symm) hne
      · have := Json.sizeOf_lookup_lt hw
        cases hv
        simp
        omega
    · split at hw
      · have := Json.sizeOf_lookup_lt hv
        cases hw
        simp
        omega
      · have := ih hv hw
        simp
        omega

theorem lookup_of_given {table : List (String × Json)} {key : String} {v : Json}
    (h : given? table key = some v) : table.lookup key = some v := by
  unfold given? at h
  split at h
  · simp at h
  · exact h

theorem branch?_size {ancestry : Option Ancestry} {type : String}
    {table : List (String × Json)} {parents : Nat} {b : Branch} (fallback : Option Json)
    (h : branch? ancestry type table parents = some b) :
    sizeOf b.value + sizeOf ((table.lookup "*").or fallback) <
      sizeOf table + sizeOf fallback := by
  have key : ∃ key, key ≠ "*" ∧ table.lookup key = some b.value := by
    unfold branch? at h
    split at h
    · rename_i v hv
      cases h
      exact ⟨"$previous", by decide, lookup_of_given hv⟩
    · split at h
      · rename_i v hv
        cases h
        exact ⟨"$parent", by decide, lookup_of_given hv⟩
      · simp at h
  obtain ⟨key, hne, hb⟩ := key
  have hpos := sizeOf_option_pos fallback
  cases hstar : table.lookup "*" with
  | none =>
    have := Json.sizeOf_lookup_lt hb
    simp
    omega
  | some star =>
    have := sizeOf_lookup_add hne hb hstar
    simp
    omega

inductive Step where
  | done (c : Choice)
  | choose (table : List (String × Json)) (fallback : Option Json) (parents : Nat)

def stepFallback (parents : Nat) : Option Json → Step
  | some (.str s) => .done (.text s)
  | some (.obj table) => .choose table none parents
  | _ => .done .noValue

variable (f : Format) (ancestry : Option Ancestry) (type : String)

/-- One choice. Where no entry fits, the branches themselves are the next choice, so that their
own `*` entry becomes the fallback. -/
def step (table : List (String × Json)) (fallback : Option Json) (parents : Nat) : Step :=
  let fallback := (table.lookup "*").or fallback
  match branch? ancestry type table parents with
  | none => stepFallback parents fallback
  | some { value := .str s, .. } => .done (.text s)
  | some { value := .obj branch, neighbor, parents } =>
    match neighbor.elim (some "null") nodeType? with
    | none => .done .nothing
    | some mapped =>
      match (given? branch mapped).or ((f.groups.get? (.text mapped)).bind (given? branch)) with
      | some (.str s) => .done (.text s)
      | some (.obj next) => .choose next fallback parents
      | _ => .choose branch fallback parents
  | some { parents, .. } => stepFallback parents fallback

/-- An entry is given for a type, or for the group of the type. -/
theorem exists_given {table : List (String × Json)} {key : String} {group : Option String}
    {v : Json} (h : (given? table key).or (group.bind (given? table)) = some v) :
    ∃ key, given? table key = some v := by
  rcases Option.or_eq_some_iff.1 h with h | ⟨-, h⟩
  · exact ⟨key, h⟩
  · obtain ⟨group, -, h⟩ := Option.bind_eq_some_iff.1 h
    exact ⟨group, h⟩

theorem stepFallback_size {parents p : Nat} {j fb : Option Json} {t : List (String × Json)}
    (h : stepFallback parents j = .choose t fb p) :
    sizeOf t + sizeOf fb < sizeOf j := by
  unfold stepFallback at h
  split at h <;> simp_all
  obtain ⟨rfl, rfl, -⟩ := h
  simp
  omega

variable {f ancestry type} in
theorem step_size {table t : List (String × Json)} {fallback fb : Option Json} {parents p : Nat}
    (h : step f ancestry type table fallback parents = .choose t fb p) :
    sizeOf t + sizeOf fb < sizeOf table + sizeOf fallback := by
  have hpos := sizeOf_option_pos fallback
  have hfall : sizeOf ((table.lookup "*").or fallback) ≤
      sizeOf table + sizeOf fallback := by
    cases hstar : table.lookup "*" with
    | none => simp
    | some star =>
      have := Json.sizeOf_lookup_lt hstar
      simp
      omega
  unfold step at h
  simp only at h
  split at h
  · have := stepFallback_size h
    omega
  · simp at h
  · rename_i branch neighbor q hb
    have hsize := branch?_size fallback hb
    simp only [Json.obj.sizeOf_spec] at hsize
    split at h
    · simp at h
    · rename_i mapped hm
      split at h
      · simp at h
      · rename_i next hnext
        have hlt : sizeOf (Json.obj next) < sizeOf branch := by
          obtain ⟨key, hkey⟩ := exists_given hnext
          exact Json.sizeOf_lookup_lt (lookup_of_given hkey)
        simp only [Json.obj.sizeOf_spec] at hlt
        simp only [Step.choose.injEq] at h
        obtain ⟨rfl, rfl, -⟩ := h
        omega
      · simp only [Step.choose.injEq] at h
        obtain ⟨rfl, rfl, -⟩ := h
        omega
  · have := stepFallback_size h
    omega

def resolve (table : List (String × Json)) (fallback : Option Json) (parents : Nat) : Choice :=
  match _h : step f ancestry type table fallback parents with
  | .done c => c
  | .choose t fb p => resolve t fb p
termination_by sizeOf table + sizeOf fallback
decreasing_by exact step_size _h

theorem resolve_eq (table : List (String × Json)) (fallback : Option Json) (parents : Nat) :
    f.resolve ancestry type table fallback parents =
      match f.step ancestry type table fallback parents with
      | .done c => c
      | .choose table fallback parents => f.resolve ancestry type table fallback parents := by
  rw [resolve]
  split
  · rename_i h
    rw [h]
  · rename_i h
    rw [h]

/-- The outcome of a value: a choice is made, any other value stays as it is. None stands for no
outcome at all. -/
def outcome? (value : Json) : Option Json :=
  match value with
  | .obj table => match f.resolve ancestry type table none 0 with
    | .text s => some (.str s)
    | .nothing => some .null
    | .noValue => none
  | value => some value

/-- The value for a key of a node: that of its type, else the global one; null means that nothing
is written. Without a type the type is `*`, and a type without a format type has no values. -/
def valueFor (key : String) : Json :=
  let type' := if type.isEmpty then "*" else type
  match nodeType? type' with
  | none => .null
  | some item =>
    let own := ((f.data.get? (.text item)).bind (·.get? key)).bind (f.outcome? ancestry type)
    match own with
    | some value => value
    | none => (f.outcome? ancestry type (f.global key)).getD .null

end ObjectiveJ.Format
