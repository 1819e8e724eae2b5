import ObjectiveJ.Proofs.Layout.Formats
import ObjectiveJ.Proofs.Layout.Places

/-!
# Texts that are taken back

A text that is taken back is written as an empty one. The fragment keeps its number, so it is empty
in each buffer that it has been copied to, and no other fragment changes
(`Layout.Retracted.runFrom`).
-/

namespace ObjectiveJ

/-- An instruction, or an empty text in the place of `self.`. -/
inductive Instr.Retracts : Instr → Instr → Prop
  | same (i : Instr) : Retracts i i
  | self (buffer : Nat) (location : Option Location) :
    Retracts (.text buffer (.str "self.") location) (.text buffer (.str "") location)

/-- A fragment that is empty if its number is among some. -/
def Fragment.emptied (ns : List Nat) (f : Fragment) : Fragment :=
  if f.serial ∈ ns then { f with value := .str "" } else f

namespace Layout

/-- The fragments with some numbers are empty in one layout and `self.` in the other. -/
structure Retracted (ns : List Nat) (l l' : Layout) : Prop where
  format : l'.format = l.format
  indenter : l'.indenter = l.indenter
  keepsPlaces : l'.keepsPlaces = l.keepsPlaces
  count : l'.count = l.count
  fragments : ∀ buffer, l'.fragments buffer = (l.fragments buffer).map (Fragment.emptied ns)
  older : ∀ n ∈ ns, n < l.count
  numbered : ∀ buffer, ∀ f ∈ l.fragments buffer, f.serial < l.count
  isSelf : ∀ buffer, ∀ f ∈ l.fragments buffer, f.serial ∈ ns → f.value = .str "self."

variable {ns : List Nat} {l l' : Layout}

/-- Fragments are appended, and some of the new ones may be emptied as well. -/
theorem Retracted.append (h : Retracted ns l l') {ms : List Nat} {count : Nat} (fs : Array Fragment)
    (hms : ∀ n < l.count, n ∈ ms ↔ n ∈ ns) (holder : ∀ n ∈ ms, n < count) (hcount : l.count ≤ count)
    (hfs : ∀ f ∈ fs, f.serial < count ∧ (f.serial ∈ ms → f.value = .str "self.")) (target : Nat) :
    Retracted ms { l.append target fs with count }
      { l'.append target (fs.map (Fragment.emptied ms)) with count } := by
  have hmem {buffer : Nat} {f : Fragment} (hf : f ∈ (l.append target fs).fragments buffer) :
      f ∈ l.fragments buffer ∨ f ∈ fs := by
    rw [fragments_append] at hf
    split at hf
    · exact Array.mem_append.1 hf
    · exact .inl hf
  refine ⟨h.format, h.indenter, h.keepsPlaces, rfl, fun buffer => ?_, holder, fun buffer f hf => ?_,
    fun buffer f hf hn => ?_⟩
  · have hold : (l.fragments buffer).map (Fragment.emptied ms) = l'.fragments buffer := by
      rw [h.fragments]
      refine Array.map_congr_left fun f hf => ?_
      simp only [Fragment.emptied, hms _ (h.numbered buffer f hf)]
    change (l'.append target _).fragments buffer = ((l.append target fs).fragments buffer).map _
    rw [fragments_append, fragments_append]
    split
    · rw [Array.map_append, hold]
    · exact hold.symm
  · rcases hmem hf with hf | hf
    · exact Nat.lt_of_lt_of_le (h.numbered buffer f hf) hcount
    · exact (hfs f hf).1
  · rcases hmem hf with hf | hf
    · exact h.isSelf buffer f hf ((hms _ (h.numbered buffer f hf)).1 hn)
    · exact (hfs f hf).2 hn

theorem Retracted.write (h : Retracted ns l l') {ms : List Nat} {v v' : Value} (buffer : Nat)
    (location : Option Location)
    (hms : ms = ns ∧ v' = v ∨ ms = l.count :: ns ∧ v = .str "self." ∧ v' = .str "") :
    Retracted ms (l.write buffer v location) (l'.write buffer v' location) := by
  have hnew : l.count ∉ ns := fun hmem => Nat.lt_irrefl _ (h.older _ hmem)
  have hsame : l'.placeOf location = l.placeOf location := by rw [placeOf, placeOf, h.keepsPlaces]
  have hmap : #[(⟨l'.count, v', l'.placeOf location⟩ : Fragment)] =
      #[(⟨l.count, v, l.placeOf location⟩ : Fragment)].map (Fragment.emptied ms) := by
    rw [h.count, hsame]
    rcases hms with ⟨rfl, rfl⟩ | ⟨rfl, rfl, rfl⟩
    · simp [Fragment.emptied, hnew]
    · simp [Fragment.emptied]
  unfold Layout.write
  rw [hmap, h.count]
  have holder := h.older
  refine h.append _ (fun n hn => ?_) (fun n hn => ?_) (Nat.le_succ _) (fun f hf => ?_) buffer
  all_goals
    clear hmap hsame
    grind

theorem retracted_simulates (ns : List Nat) : Simulates (Retracted ns) where
  format h := h.format
  indenter h := h.indenter
  indented h _ := { h with indenter := rfl }
  write h buffer _ location := h.write buffer location (.inl ⟨rfl, rfl⟩)
  splice h target source := by
    have happend := h.append _ (fun _ _ => Iff.rfl) h.older (Nat.le_refl _)
      (fun f hf => ⟨h.numbered source f hf, h.isSelf source f hf⟩) target
    rw [← h.fragments] at happend
    exact ⟨happend.format, happend.indenter, happend.keepsPlaces, h.count, happend.fragments,
      happend.older, happend.numbered, happend.isSelf⟩

theorem Retracted.runFrom (h : Retracted ns l l') {is js : List Instr}
    (his : List.Forall₂ Instr.Retracts is js) (number : Nat) :
    (∃ n, l.runFrom number is = .error n ∧ l'.runFrom number js = .error n) ∨
      ∃ ms k k', l.runFrom number is = .ok k ∧ l'.runFrom number js = .ok k' ∧
      Retracted ms k k' := by
  induction his generalizing ns l l' number with
  | nil => exact .inr ⟨ns, l, l', rfl, rfl, h⟩
  | @cons i _ _ _ hi _ ih =>
    cases hi with
    | same =>
      have hexec := (retracted_simulates ns).exec h i
      simp only [Layout.runFrom]
      generalize l.exec i = r, l'.exec i = r' at hexec ⊢
      cases hexec with
      | error => exact .inl ⟨number, rfl, rfl⟩
      | ok h => exact ih h (number + 1)
    | self buffer location => exact ih (h.write buffer location (.inr ⟨rfl, rfl, rfl⟩)) (number + 1)

/-- Two lists of instructions are carried out alike, but for fragments with `self.` that are empty
in each buffer that they are in. -/
def Retracts (l : Layout) (is js : List Instr) : Prop :=
  (∃ n, l.run is = .error n ∧ l.run js = .error n) ∨
    ∃ ns k k', l.run is = .ok k ∧ l.run js = .ok k' ∧ ∀ buffer,
      k'.fragments buffer = (k.fragments buffer).map (Fragment.emptied ns) ∧
      ∀ f ∈ k.fragments buffer, f.serial ∈ ns → f.value = .str "self."

theorem retracts (hl : l.buffers = #[]) {is js : List Instr}
    (his : List.Forall₂ Instr.Retracts is js) : l.Retracts is js := by
  have hnone (buffer : Nat) : l.fragments buffer = #[] := by simp [Layout.fragments, hl]
  have hstart : Retracted [] l l := ⟨rfl, rfl, rfl, rfl, by simp [hnone], by simp, by simp [hnone],
    by simp [hnone]⟩
  rcases hstart.runFrom his 0 with herror | ⟨ns, k, k', hk, hk', h⟩
  · exact .inl herror
  · exact .inr ⟨ns, k, k', hk, hk', fun buffer => ⟨h.fragments buffer, h.isSelf buffer⟩⟩

end Layout

end ObjectiveJ
