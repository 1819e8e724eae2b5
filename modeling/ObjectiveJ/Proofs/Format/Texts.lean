import ObjectiveJ.Proofs.Format

/-!
# The texts of a format

Whatever surrounds a node, the value of a format for a key is one of the texts that the format has
under this key, for some type of nodes. So a property of all these texts is a property of the value
(`Format.allTexts_valueFor`), and it is enough to look at the format once.

Both bundled formats have nothing but blanks, line breaks and changes of the indentation under all
keys but `after`, and the same texts under `after`.
-/

namespace ObjectiveJ

mutual

/-- Whether a value is made of texts that have a property. -/
def Json.allTexts (p : List Char → Bool) : Json → Bool
  | .null => true
  | .str s => p s.toList
  | .obj members => allTextsOf p members
  | _ => false

def allTextsOf (p : List Char → Bool) : List (String × Json) → Bool
  | [] => true
  | (_, value) :: rest => value.allTexts p && allTextsOf p rest

end

/-- Nothing, or a text that has a property. -/
def Json.IsText (p : List Char → Bool) (v : Json) : Prop :=
  v = .null ∨ ∃ s, v = .str s ∧ p s.toList = true

mutual

/-- Whether two values are the same and made of texts and whole numbers. -/
def Json.agrees : Json → Json → Bool
  | .null, .null => true
  | .int m, .int n => m == n
  | .str s, .str t => s == t
  | .obj members, .obj others => agreesOf members others
  | _, _ => false

def agreesOf : List (String × Json) → List (String × Json) → Bool
  | [], [] => true
  | (key, v) :: rest, (other, w) :: others => key == other && v.agrees w && agreesOf rest others
  | _, _ => false

end

mutual

theorem Json.eq_of_agrees : ∀ {v w : Json}, v.agrees w = true → v = w
  | .null, .null, _ => rfl
  | .int m, .int n, h => by
      rw [Json.agrees, beq_iff_eq] at h
      rw [h]
  | .str s, .str t, h => by
      rw [Json.agrees, beq_iff_eq] at h
      rw [h]
  | .obj members, .obj others, h => by
      rw [Json.agrees] at h
      rw [eq_of_agreesOf h]

theorem eq_of_agreesOf : ∀ {members others : List (String × Json)},
    agreesOf members others = true → members = others
  | [], [], _ => rfl
  | (key, v) :: rest, (other, w) :: others, h => by
      simp only [agreesOf, Bool.and_eq_true, beq_iff_eq] at h
      rw [h.1.1, Json.eq_of_agrees h.1.2, eq_of_agreesOf h.2]

end

namespace Format

variable {table : List (String × Json)} {key type : String} {ancestry : Option Ancestry}
  {fallback : Option Json} {g : Format} {v : Json} {parents : Nat}

variable {p : List Char → Bool} {f : Format}

theorem allTexts_of_lookup (h : allTextsOf p table = true) (hv : table.lookup key = some v) :
    v.allTexts p = true := by
  induction table with
  | nil => cases hv
  | cons entry rest ih =>
    rw [allTextsOf, Bool.and_eq_true] at h
    rw [List.lookup_cons] at hv
    split at hv
    · cases hv
      exact h.1
    · exact ih h.2 hv

theorem allTexts_of_given (h : allTextsOf p table = true) (hv : given? table key = some v) :
    v.allTexts p = true :=
  allTexts_of_lookup h (lookup_of_given hv)

/-- What a choice leads to has the property, if the choice and its fallback have it. -/
def Step.AllTexts (p : List Char → Bool) : Step → Prop
  | .done (.text s) => p s.toList = true
  | .done _ => True
  | .choose table fallback _ => allTextsOf p table = true ∧ ∀ v ∈ fallback, v.allTexts p = true

theorem allTexts_stepFallback (h : ∀ v ∈ fallback, v.allTexts p = true) :
    (stepFallback parents fallback).AllTexts p := by
  unfold stepFallback
  split
  · exact h _ rfl
  · exact ⟨h _ rfl, nofun⟩
  · trivial

theorem allTexts_branch {b : Branch} (h : allTextsOf p table = true)
    (hb : branch? ancestry type table parents = some b) : b.value.allTexts p = true := by
  unfold branch? at hb
  split at hb
  · rename_i hv
    cases hb
    exact allTexts_of_given h hv
  · split at hb
    · rename_i hv
      cases hb
      exact allTexts_of_given h hv
    · cases hb

theorem allTexts_step (f : Format) (ancestry : Option Ancestry) (type : String) (parents : Nat)
    (h : allTextsOf p table = true) (hfallback : ∀ v ∈ fallback, v.allTexts p = true) :
    (step f ancestry type table fallback parents).AllTexts p := by
  have hrest : ∀ v ∈ (table.lookup "*").or fallback, v.allTexts p = true := by
    intro v hv
    rcases Option.or_eq_some_iff.1 hv with hv | ⟨-, hv⟩
    · exact allTexts_of_lookup h hv
    · exact hfallback v hv
  unfold step
  dsimp only
  split
  · exact allTexts_stepFallback hrest
  · rename_i hb
    exact allTexts_branch h hb
  · rename_i branch neighbor parents' hb
    have hbranch : allTextsOf p branch = true := allTexts_branch h hb
    split
    · trivial
    · split
      · rename_i hnext
        obtain ⟨key, hkey⟩ := exists_given hnext
        exact allTexts_of_given hbranch hkey
      · rename_i next hnext
        obtain ⟨key, hkey⟩ := exists_given hnext
        exact ⟨allTexts_of_given hbranch hkey, hrest⟩
      · exact ⟨hbranch, hrest⟩
  · exact allTexts_stepFallback hrest

theorem allTexts_resolve {s : String} (h : allTextsOf p table = true)
    (hfallback : ∀ v ∈ fallback, v.allTexts p = true)
    (hs : resolve f ancestry type table fallback parents = .text s) : p s.toList = true := by
  induction table, fallback, parents using resolve.induct f ancestry type with
  | case1 table fallback parents c hstep =>
    have hall := allTexts_step f ancestry type parents h hfallback
    rw [resolve_eq, hstep] at hs
    rwa [hstep, show c = .text s from hs] at hall
  | case2 table fallback parents t fb q hstep ih =>
    have hall := allTexts_step f ancestry type parents h hfallback
    rw [hstep] at hall
    rw [resolve_eq, hstep] at hs
    exact ih hall.1 hall.2 hs

theorem allTexts_outcome? {value : Json} (h : value.allTexts p = true)
    (hv : f.outcome? ancestry type value = some v) : v.IsText p := by
  cases value with
  | obj table =>
    rw [outcome?] at hv
    split at hv
    · rename_i s hresolve
      cases hv
      refine .inr ⟨s, rfl, allTexts_resolve h ?_ hresolve⟩
      rintro _ ⟨⟩
    · exact .inl (Option.some.inj hv).symm
    · cases hv
  | null => exact .inl (Option.some.inj hv).symm
  | str s => exact .inr ⟨s, (Option.some.inj hv).symm, h⟩
  | _ => cases h

/-- Whether the texts that a format has under some keys have a property. -/
def allTextsUnder (f : Format) (keys : String → Bool) (p : List Char → Bool) : Bool :=
  f.data.entries.all fun (_, table) =>
    table.entries.all fun (key, value) => !keys key || value.allTexts p

theorem allTexts_of_under {keys : String → Bool} (h : f.allTextsUnder keys p = true)
    (hkey : keys key = true) {type : Key} (hv : (f.data.get? type).bind (·.get? key) = some v) :
    v.allTexts p = true := by
  obtain ⟨table, htable, hv⟩ := Option.bind_eq_some_iff.1 hv
  have hall := List.all_eq_true.1 h _ (Table.mem_of_lookup htable)
  have hentry := List.all_eq_true.1 hall _ (Table.mem_of_lookup hv)
  simpa [hkey] using hentry

/-- The value for a key is one of the texts under the key, or there is none. -/
theorem allTexts_valueFor {keys : String → Bool} (h : f.allTextsUnder keys p = true)
    (hkey : keys key = true) (ancestry : Option Ancestry) (type : String) :
    (f.valueFor ancestry type key).IsText p := by
  have hglobal : (f.global key).allTexts p = true := by
    unfold global globals
    split
    · cases hv : ((f.data.get? (.text "*")).getD {}).get? key with
      | none => rfl
      | some v =>
        have hstar : (f.data.get? (.text "*")).bind (·.get? key) = some v := by
          cases htable : f.data.get? (.text "*") with
          | none =>
            rw [htable] at hv
            cases hv
          | some table =>
            rw [htable] at hv
            exact hv
        exact allTexts_of_under h hkey hstar
    · rfl
  unfold valueFor
  dsimp only
  split
  · exact .inl rfl
  · split
    · rename_i hown
      obtain ⟨value, hvalue, hv⟩ := Option.bind_eq_some_iff.1 hown
      exact allTexts_outcome? (allTexts_of_under h hkey hvalue) hv
    · cases hv : f.outcome? ancestry type (f.global key) with
      | none => exact .inl rfl
      | some v => exact allTexts_outcome? hglobal hv

/-! ### Formats that agree under a key -/

def own? (f : Format) (item key : String) : Option Json :=
  (f.data.get? (.text item)).bind (·.get? key)

def agreesAt (f g : Format) (key item : String) : Bool :=
  match f.own? item key, g.own? item key with
  | some v, some w => v.agrees w
  | none, none => true
  | _, _ => false

theorem own?_of_agreesAt {item : String} (h : f.agreesAt g key item = true) :
    f.own? item key = g.own? item key := by
  unfold agreesAt at h
  split at h
  · rename_i hv hw
    rw [hv, hw, Json.eq_of_agrees h]
  · rename_i hv hw
    rw [hv, hw]
  · cases h

/-- Formats that have the same under a key have the same value for it. -/
theorem valueFor_congr (ancestry : Option Ancestry) (type : String)
    (hown : ∀ item, nodeType? (if type.isEmpty then "*" else type) = some item →
      f.own? item key = g.own? item key) (hglobal : f.global key = g.global key)
    (houtcome : f.outcome? ancestry type = g.outcome? ancestry type) :
    f.valueFor ancestry type key = g.valueFor ancestry type key := by
  unfold valueFor
  dsimp only
  split
  · rfl
  · rename_i item hitem
    have hitem := hown item hitem
    unfold own? at hitem
    rw [hitem, hglobal, houtcome]

section Groups

variable (h : f.groups = g.groups) (ancestry : Option Ancestry) (type : String)
  (table : List (String × Json)) (fallback : Option Json) (parents : Nat)

include h

theorem step_congr :
    step f ancestry type table fallback parents = step g ancestry type table fallback parents := by
  unfold step
  rw [h]

theorem resolve_congr :
    resolve f ancestry type table fallback parents =
      resolve g ancestry type table fallback parents := by
  induction table, fallback, parents using resolve.induct f ancestry type with
  | case1 table fallback parents c hstep =>
    rw [resolve_eq, resolve_eq g, ← step_congr h, hstep]
  | case2 table fallback parents t fb q hstep ih =>
    rw [resolve_eq, resolve_eq g, ← step_congr h, hstep]
    exact ih

end Groups

end Format

end ObjectiveJ
