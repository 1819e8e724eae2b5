import ObjectiveJ.Layout.Basic

/-!
# Layouts without places

Instructions do little to a layout: they write a value, change the indentation or copy a buffer. A
relation of layouts that is kept by that is kept by every instruction (`Layout.Simulates.exec`). So
whether the places of fragments are kept or not, the same instructions are carried out in the same
way: the buffers hold the same fragments, but for the places (`Layout.runFrom_unplaced`).
-/

namespace ObjectiveJ

/-- A fragment that stands for no place. -/
def Fragment.unplaced (f : Fragment) : Fragment := { f with location := none }

theorem Fragment.text?_unplaced (fs : List Fragment) : text? (fs.map unplaced) = text? fs := by
  have hmap : (fs.map unplaced).mapM (fun f => f.value.text?) = fs.mapM fun f => f.value.text? := by
    induction fs with
    | nil => rfl
    | cons f rest ih =>
      rw [List.map_cons, List.mapM_cons, List.mapM_cons, ih]
      rfl
  rw [text?, text?, hmap]

namespace Layout

/-- A relation of layouts that is kept by whatever instructions do. -/
structure Simulates (R : Layout → Layout → Prop) : Prop where
  format : ∀ {l l'}, R l l' → l'.format = l.format
  indenter : ∀ {l l'}, R l l' → l'.indenter = l.indenter
  indented : ∀ {l l'}, R l l' → ∀ indenter, R { l with indenter } { l' with indenter }
  write : ∀ {l l'}, R l l' → ∀ buffer v location,
    R (l.write buffer v location) (l'.write buffer v location)
  splice : ∀ {l l'}, R l l' → ∀ target source,
    R (l.append target (l.fragments source)) (l'.append target (l'.fragments source))

variable {R : Layout → Layout → Prop} {l l' : Layout}

/-- Two outcomes of instructions that are related, or failures. -/
inductive Both {ε : Type} (R : Layout → Layout → Prop) : Except ε Layout → Except ε Layout → Prop
  | ok {k k' : Layout} : R k k' → Both R (.ok k) (.ok k')
  | error {e e' : ε} : Both R (.error e) (.error e')

theorem Simulates.exec (hR : Simulates R) (h : R l l') (i : Instr) :
    Both R (l.exec i) (l'.exec i) := by
  cases i with
  | text buffer value location => exact .ok (hR.write h ..)
  | template buffer s skipFirst location =>
    simp only [Layout.exec, hR.indenter h]
    cases l.indenter.template? s.toList skipFirst with
    | none => exact .error
    | some text => exact .ok (hR.write h ..)
  | hook buffer type key ancestry =>
    simp only [Layout.exec, hR.format h]
    cases keyText? l.format key with
    | none => exact .error
    | some name =>
      simp only [hook, hR.format h, hR.indenter h]
      split
      · exact .ok h
      split
      · rcases l.indenter.value _ with ⟨indenter, _ | text⟩
        · exact .error
        · exact .ok (hR.indented (hR.write h ..) indenter)
      · exact .error
  | indent n =>
    simp only [Layout.exec, hR.indenter h]
    cases l.indenter.indent? (.int n) with
    | none => exact .error
    | some indenter => exact .ok (hR.indented h indenter)
  | dedent n =>
    simp only [Layout.exec, hR.indenter h]
    cases l.indenter.dedent? (.int n) with
    | none => exact .error
    | some indenter => exact .ok (hR.indented h indenter)
  | splice target source => exact .ok (hR.splice h ..)

/-- A layout that forgets the places. -/
def unplaced (l : Layout) : Layout :=
  { l with keepsPlaces := false, buffers := l.buffers.map fun fs => fs.map Fragment.unplaced }

theorem fragments_unplaced (l : Layout) (buffer : Nat) :
    l.unplaced.fragments buffer = (l.fragments buffer).map Fragment.unplaced := by
  simp only [fragments, unplaced, Array.getElem?_map]
  cases l.buffers[buffer]? with
  | none => exact Array.map_empty.symm
  | some fs => rfl

theorem append_unplaced (l : Layout) (buffer : Nat) (fs : Array Fragment) :
    l.unplaced.append buffer (fs.map Fragment.unplaced) = (l.append buffer fs).unplaced := by
  simp only [append, unplaced, Layout.mk.injEq, true_and]
  apply Array.ext
  · simp
  · intro i hi _
    simp only [Array.getElem_modify, Array.getElem_map, Array.getElem_append, Array.size_map,
      Array.getElem_replicate]
    split
    · split
      · rw [Array.map_append]
      · rw [Array.map_append, Array.map_empty]
    · split
      · rfl
      · rw [Array.map_empty]

theorem write_unplaced (l : Layout) (buffer : Nat) (v : Value) (location : Option Location) :
    l.unplaced.write buffer v location = (l.write buffer v location).unplaced := by
  have happend := l.append_unplaced buffer
    #[{ serial := l.count, value := v, location := l.placeOf location }]
  rw [List.map_toArray] at happend
  exact congrArg (fun k : Layout => { k with count := l.count + 1 }) happend

theorem unplaced_simulates : Simulates fun l l' => l' = l.unplaced where
  format h := by rw [h, unplaced]
  indenter h := by rw [h, unplaced]
  indented h _ := by rw [h, unplaced, unplaced]
  write h _ _ _ := by rw [h, write_unplaced]
  splice h _ _ := by rw [h, fragments_unplaced, append_unplaced]

theorem runFrom_unplaced (l : Layout) (number : Nat) (is : List Instr) :
    l.unplaced.runFrom number is = (l.runFrom number is).map unplaced := by
  induction is generalizing l number with
  | nil => rfl
  | cons i rest ih =>
    have hexec := unplaced_simulates.exec (l := l) rfl i
    simp only [runFrom]
    generalize l.exec i = r, l.unplaced.exec i = r' at hexec ⊢
    cases hexec with
    | error => rfl
    | ok h => exact h ▸ ih _ (number + 1)

end Layout

end ObjectiveJ
