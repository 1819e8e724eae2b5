import ObjectiveJ.Layout.Basic

/-!
# Layouts of plain texts

Some instructions write a text that depends on nothing but the format: texts, and hooks whose value
has no line ends and no marks for the indentation in it. `Instr.plainText?` is that text. Whatever
the layout has written before, such instructions can be carried out and append their texts in order
(`Layout.Holds.run`).
-/

namespace ObjectiveJ

variable {cs : List Char}

/-- A value of a format that is written as it is. -/
def isPlainText (cs : List Char) : Bool := !cs.contains '\n' && !cs.contains '|'

theorem Text.split_of_notMem {sep : Char} (h : sep ∉ cs) : Text.split sep cs = [cs] := by
  induction cs with
  | nil => rfl
  | cons c cs ih =>
    rw [List.mem_cons, not_or] at h
    rw [Text.split, if_neg (Ne.symm h.1), ih h.2]

/-- A text is its pieces, each with the separator after it, and the last piece. -/
theorem Text.split_spec (sep : Char) (cs : List Char) : ∃ pieces last,
    split sep cs = pieces ++ [last] ∧ cs = pieces.flatMap (· ++ [sep]) ++ last ∧ sep ∉ last ∧
      pieces.length = cs.count sep := by
  induction cs with
  | nil => exact ⟨[], [], rfl, rfl, List.not_mem_nil, rfl⟩
  | cons c cs ih =>
    obtain ⟨pieces, last, hsplit, hcs, hlast, hlength⟩ := ih
    by_cases hc : c = sep
    · exact ⟨[] :: pieces, last, by simp [split, hc, hsplit], by simp [hc, ← hcs], hlast,
        by simp [hc, hlength]⟩
    · cases pieces with
      | nil =>
        exact ⟨[], c :: last, by simp [split, hc, hsplit], by simpa using hcs,
          by simpa [Ne.symm hc] using hlast, by simpa [hc] using hlength⟩
      | cons piece pieces =>
        refine ⟨(c :: piece) :: pieces, last, by simp [split, hc, hsplit], ?_, hlast,
          by simpa [hc] using hlength⟩
        simpa using congrArg (c :: ·) hcs

theorem Indenter.directive_of_notMem (h : '|' ∉ cs) : directive cs = (cs, .none) := by
  induction cs with
  | nil => rfl
  | cons c cs ih =>
    rw [List.mem_cons, not_or] at h
    rw [directive, if_neg (Ne.symm h.1)]
    simp only [ih h.2]

theorem Indenter.value_of_isPlainText (i : Indenter) (h : isPlainText cs = true) :
    i.value cs = (i, some cs) := by
  simp only [isPlainText, Bool.and_eq_true, Bool.not_eq_true', List.contains_eq_mem,
    decide_eq_false_iff_not] at h
  rw [value, Text.split_of_notMem h.1]
  simp only [directive_of_notMem h.2, shift?, valueLines, Option.map_some, Text.join]

/-- The text that an instruction writes into the buffer of the unit, if it does nothing else and
the text depends on the format only. -/
def Instr.plainText? (f : Format) : Instr → Option (List Char)
  | .text 0 (.str s) _ => some s.toList
  | .hook 0 type (.plain key) ancestry =>
    match f.valueFor (some ancestry) type key with
    | .null => some []
    | .str s => if isPlainText s.toList then some s.toList else none
    | _ => none
  | _ => none

def plainTexts? (f : Format) : List Instr → Option (List Char)
  | [] => some []
  | i :: rest => do return (← i.plainText? f) ++ (← plainTexts? f rest)

theorem plainTexts?_append {f : Format} {is js : List Instr} {ds : List Char}
    (hi : plainTexts? f is = some cs) (hj : plainTexts? f js = some ds) :
    plainTexts? f (is ++ js) = some (cs ++ ds) := by
  induction is generalizing cs with
  | nil =>
    cases hi
    exact hj
  | cons i is ih =>
    simp only [plainTexts?, Option.bind_eq_bind, Option.bind_eq_some_iff] at hi
    obtain ⟨xs, hx, ys, hy, hxy⟩ := hi
    cases hxy
    simp [plainTexts?, hx, ih hy]

/-- Where the text of an instruction stands for a place in the source, the place has a property. -/
def Instr.PlacedBy (P : Location → Prop) : Instr → Prop
  | .text _ _ location => ∀ l, location = some l → P l
  | .template _ _ _ location => ∀ l, location = some l → P l
  | _ => True

namespace Layout

/-- The buffer of the unit holds a text, and its fragments stand for places with a property. -/
structure Holds (P : Location → Prop) (l : Layout) (cs : List Char) : Prop where
  text : Fragment.text? (l.fragments 0).toList = some (String.ofList cs)
  placed : ∀ f ∈ (l.fragments 0).toList, ∀ place, f.location = some place → P place

variable {P : Location → Prop} {l : Layout} {cs ds : List Char}

theorem fragments_append_self (l : Layout) (fs : Array Fragment) (buffer : Nat) :
    (l.append buffer fs).fragments buffer = l.fragments buffer ++ fs := by
  simp only [fragments, append]
  rw [Array.getElem?_modify, if_pos rfl, Array.getElem?_append]
  by_cases h : buffer < l.buffers.size
  · simp [h]
  · have hnew : buffer - l.buffers.size < buffer + 1 - l.buffers.size := by omega
    simp [h, hnew]

theorem eq_some_of_placeOf {location : Option Location} {place : Location}
    (h : l.placeOf location = some place) : location = some place := by
  unfold placeOf at h
  split at h
  · exact h
  · cases h

theorem Holds.write (h : l.Holds P cs) (s : String) {location : Option Location}
    (hplace : ∀ place, location = some place → P place) :
    (l.write 0 (.str s) location).Holds P (cs ++ s.toList) := by
  have hfragments : ((l.write 0 (.str s) location).fragments 0).toList =
      (l.fragments 0).toList ++
        [{ serial := l.count, value := .str s, location := l.placeOf location }] := by
    have := l.fragments_append_self
      #[{ serial := l.count, value := .str s, location := l.placeOf location }] 0
    simp only [Layout.write, fragments] at this ⊢
    rw [this]
    simp
  constructor
  · have htext := h.text
    rw [hfragments]
    simp only [Fragment.text?, Option.bind_eq_bind, Option.bind_eq_some_iff] at htext ⊢
    obtain ⟨texts, hmap, hjoin⟩ := htext
    refine ⟨texts ++ [s], ?_, ?_⟩
    · rw [List.mapM_append, hmap]
      rfl
    · have hjoin : String.join texts = String.ofList cs := Option.some.inj hjoin
      simp [String.join_append, hjoin, String.join_cons]
  · intro f hf
    rw [hfragments, List.mem_append] at hf
    rcases hf with hf | hf
    · exact h.placed f hf
    · obtain rfl := List.mem_singleton.1 hf
      exact fun place h => hplace place (eq_some_of_placeOf h)

/-- An instruction with a plain text can be carried out, and appends it. -/
theorem Holds.exec (h : l.Holds P cs) {i : Instr} (htext : i.plainText? l.format = some ds)
    (hplaced : i.PlacedBy P) :
    ∃ l', l.exec i = .ok l' ∧ l'.format = l.format ∧ l'.Holds P (cs ++ ds) := by
  unfold Instr.plainText? at htext
  split at htext
  · cases htext
    exact ⟨_, rfl, rfl, h.write _ hplaced⟩
  · rename_i type key ancestry
    simp only [Layout.exec, keyText?, hook]
    split at htext
    · rename_i hvalue
      cases htext
      exact ⟨l, by simp [hvalue, Json.truthy], rfl, by simpa using h⟩
    · rename_i s hvalue
      rw [hvalue]
      split at htext
      · rename_i hplain
        cases htext
        cases hs : s.isEmpty with
        | true =>
          obtain rfl := String.isEmpty_iff.1 hs
          exact ⟨l, by simp [Json.truthy], rfl, by simpa using h⟩
        | false =>
          refine ⟨l.write 0 (.str s) none, ?_, rfl, h.write s (by simp)⟩
          simp only [Json.truthy, hs, Bool.not_false, Bool.not_true, Bool.false_eq_true, if_false,
            l.indenter.value_of_isPlainText hplain, String.ofList_toList]
          rfl
      · cases htext
    · cases htext
  · cases htext

/-- Instructions with plain texts can be carried out, and append their texts in order. -/
theorem Holds.run {is : List Instr} (h : l.Holds P cs) (htexts : plainTexts? l.format is = some ds)
    (hplaced : ∀ i ∈ is, i.PlacedBy P) : ∃ l', l.run is = .ok l' ∧ l'.Holds P (cs ++ ds) := by
  unfold Layout.run
  generalize 0 = number
  induction is generalizing l cs ds number with
  | nil =>
    cases htexts
    exact ⟨l, rfl, by simpa using h⟩
  | cons i is ih =>
    simp only [plainTexts?, Option.bind_eq_bind, Option.bind_eq_some_iff] at htexts
    obtain ⟨xs, hx, ys, hy, hxy⟩ := htexts
    cases hxy
    obtain ⟨l₁, hexec, hformat, h₁⟩ := h.exec hx (hplaced i (by simp))
    rw [← hformat] at hy
    obtain ⟨l₂, hrun, h₂⟩ := ih h₁ hy (fun j hj => hplaced j (by simp [hj])) (number + 1)
    refine ⟨l₂, ?_, by simpa using h₂⟩
    rw [runFrom, hexec]
    exact hrun

end Layout

end ObjectiveJ
