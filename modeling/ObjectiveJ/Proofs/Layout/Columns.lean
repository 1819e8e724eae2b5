import ObjectiveJ.Proofs.Layout.Formats

/-!
# The indentation after instructions

How an instruction changes the indentation depends on the format, the indentation and the
instruction alone, whatever has been written (`Instr.indented?`). With a bundled format the
indentation stays a number of blanks, the *column*, and balanced instructions lead back to the
column where they start (`Balanced.indented`).
-/

namespace ObjectiveJ

variable {is : List Instr} {f : Format}

/-- The indenter after what a format has for a key, if that can be carried out. -/
def Format.indented? (f : Format) (i : Indenter) (ancestry : Ancestry) (type key : String) :
    Option Indenter :=
  if !(f.valueFor (some ancestry) type key).truthy then some i
  else match f.valueFor (some ancestry) type key with
    | .str s => (i.value s.toList).2.map fun _ => (i.value s.toList).1
    | _ => none

namespace Instr

variable (f : Format) (i : Indenter)

/-- The indenter after an instruction, if that can be carried out. -/
def indented? (f : Format) (i : Indenter) : Instr → Option Indenter
  | .template _ s skipFirst _ => (i.template? s.toList skipFirst).map fun _ => i
  | .hook _ type key ancestry => (Layout.keyText? f key).bind (f.indented? i ancestry type)
  | .indent n => i.indent? (.int n)
  | .dedent n => i.dedent? (.int n)
  | _ => some i

/-- The indenter after instructions. -/
def allIndented? (f : Format) (i : Indenter) (is : List Instr) : Option Indenter :=
  is.foldlM (indented? f) i

theorem indented?_blanked (instr : Instr) :
    instr.blanked.indented? f i = instr.indented? f i := by
  cases instr <;> rfl

theorem allIndented?_blanked (is : List Instr) :
    allIndented? f i (is.map blanked) = allIndented? f i is := by
  simp only [allIndented?, List.foldlM_map, indented?_blanked]

theorem allIndented?_append (is js : List Instr) :
    allIndented? f i (is ++ js) = (allIndented? f i is).bind (allIndented? f · js) :=
  List.foldlM_append ..

end Instr

namespace Layout

theorem hook_indenter (l : Layout) (buffer : Nat) (type key : String) (ancestry : Ancestry) :
    (l.hook buffer type key ancestry).toOption.map (fun k => (k.format, k.indenter)) =
      (l.format.indented? l.indenter ancestry type key).map (l.format, ·) := by
  unfold hook Format.indented?
  dsimp only
  split
  · rfl
  · cases l.format.valueFor (some ancestry) type key with
    | str s =>
      dsimp only
      rcases l.indenter.value s.toList with ⟨indenter, _ | text⟩ <;> rfl
    | _ => rfl

theorem exec_indenter (l : Layout) (i : Instr) :
    (l.exec i).toOption.map (fun k => (k.format, k.indenter)) =
      (i.indented? l.format l.indenter).map (l.format, ·) := by
  cases i with
  | text buffer value location => rfl
  | template buffer s skipFirst location =>
    simp only [exec, Instr.indented?]
    cases l.indenter.template? s.toList skipFirst <;> rfl
  | hook buffer type key ancestry =>
    simp only [exec, Instr.indented?]
    cases keyText? l.format key with
    | none => rfl
    | some name => exact l.hook_indenter buffer type name ancestry
  | indent n =>
    simp only [exec, Instr.indented?]
    cases l.indenter.indent? (.int n) <;> rfl
  | dedent n =>
    simp only [exec, Instr.indented?]
    cases l.indenter.dedent? (.int n) <;> rfl
  | splice target source => rfl

theorem runFrom_indenter (l : Layout) (number : Nat) (is : List Instr) :
    (l.runFrom number is).toOption.map indenter = Instr.allIndented? l.format l.indenter is := by
  induction is generalizing l number with
  | nil => rfl
  | cons i rest ih =>
    have hexec := l.exec_indenter i
    simp only [runFrom, Instr.allIndented?, List.foldlM_cons] at ih ⊢
    cases hi : l.exec i with
    | error _ =>
      rw [hi] at hexec
      have hnone := Option.map_eq_none_iff.1 hexec.symm
      rw [hnone]
      rfl
    | ok k =>
      rw [hi] at hexec
      obtain ⟨indenter, hindented, heq⟩ := Option.map_eq_some_iff.1 hexec.symm
      obtain ⟨hformat, rfl⟩ := Prod.mk.inj heq
      rw [hindented, hformat]
      exact ih k (number + 1)

end Layout

/-! ### Blanks -/

namespace Indenter.Blank

variable {w : Nat} {i j : Indenter}

theorem of_indent? (h : i.Blank w) {n : Int} (hj : i.indent? (.int n) = some j) : j.Blank w := by
  obtain ⟨text, htext, hj⟩ := Option.bind_eq_some_iff.1 hj
  cases hj
  obtain ⟨m, hm⟩ := h.indentation
  have hblanks : ∃ m, text = List.replicate m ' ' := by
    rw [h.step] at htext
    change Text.repeated? (List.replicate w ' ') n = some text at htext
    unfold Text.repeated? at htext
    split at htext
    · cases htext
    split at htext
    · exact ⟨0, (Option.some.inj htext).symm⟩
    split at htext
    · cases htext
    · refine ⟨n.toNat * w, ?_⟩
      rw [← Option.some.inj htext, List.flatten_replicate_replicate]
  obtain ⟨m', rfl⟩ := hblanks
  exact ⟨h.isSmall, h.step, m + m', by simp [hm]⟩

theorem of_dedent? (h : i.Blank w) {n : Int} (hj : i.dedent? (.int n) = some j) : j.Blank w := by
  obtain ⟨size, -, hj⟩ := Option.bind_eq_some_iff.1 hj
  obtain ⟨count, -, hj⟩ := Option.bind_eq_some_iff.1 hj
  cases hj
  obtain ⟨m, hm⟩ := h.indentation
  refine ⟨h.isSmall, h.step, ?_⟩
  rw [Text.sliceFrom, hm, List.drop_replicate]
  exact ⟨_, rfl⟩

theorem of_shift? (h : i.Blank w) {d : Directive} (hj : i.shift? d = some j) : j.Blank w := by
  cases d with
  | none => exact Option.some.inj hj ▸ h
  | tooLong => cases hj
  | «by» n =>
    unfold Indenter.shift? at hj
    dsimp only at hj
    split at hj
    · exact h.of_indent? hj
    split at hj
    · exact h.of_dedent? hj
    · exact Option.some.inj hj ▸ h

theorem of_valueLines (h : i.Blank w) (lines : List (List Char)) :
    (i.valueLines lines).1.Blank w := by
  induction lines generalizing i with
  | nil => exact h
  | cons line rest ih =>
    rw [Indenter.valueLines]
    dsimp only
    split
    · exact h
    · rename_i hj
      exact ih (h.of_shift? hj)

theorem of_value (h : i.Blank w) (cs : List Char) : (i.value cs).1.Blank w := by
  unfold Indenter.value
  split
  · exact h
  · dsimp only
    split
    · exact h
    · rename_i hj
      exact (h.of_shift? hj).of_valueLines _

theorem indented? (h : i.Blank w) {instr : Instr} (hj : instr.indented? f i = some j) :
    j.Blank w := by
  cases instr with
  | text buffer value location => exact Option.some.inj hj ▸ h
  | template buffer s skipFirst location =>
    obtain ⟨text, -, rfl⟩ := Option.map_eq_some_iff.1 hj
    exact h
  | hook buffer type key ancestry =>
    obtain ⟨name, -, hj⟩ := Option.bind_eq_some_iff.1 hj
    unfold Format.indented? at hj
    split at hj
    · exact Option.some.inj hj ▸ h
    split at hj
    · obtain ⟨text, -, rfl⟩ := Option.map_eq_some_iff.1 hj
      exact h.of_value _
    · cases hj
  | indent n => exact h.of_indent? hj
  | dedent n => exact h.of_dedent? hj
  | splice target source => exact Option.some.inj hj ▸ h

theorem allIndented? (h : i.Blank w) (hj : Instr.allIndented? f i is = some j) : j.Blank w := by
  induction is generalizing i with
  | nil => exact Option.some.inj hj ▸ h
  | cons instr rest ih =>
    obtain ⟨k, hk, hj⟩ := Option.bind_eq_some_iff.1 hj
    exact ih (h.indented? hk) hj

end Indenter.Blank

/-! ### Balanced instructions -/

namespace Format.Tidy

variable {f : Format} {w : Nat} {i : Indenter}

theorem keyText? (hf : f.Tidy) (key : HookKey) : ∃ name, Layout.keyText? f key = some name := by
  cases key with
  | plain key => exact ⟨key, rfl⟩
  | bracket side name elements =>
    simp only [Layout.keyText?, hf.isShort?]
    exact ⟨_, rfl⟩

theorem indented? (hf : f.Tidy) (hi : i.Blank w) (ancestry : Ancestry) (type : String)
    {key : String} (hkey : key ∉ settingKeys) : f.indented? i ancestry type key =
      some (i.atColumn (f.columnAfter ancestry type key w i.indentation.length)) := by
  let l : Layout := { format := f, indenter := i }
  have hsame : i.atColumn i.indentation.length = i := hi.eq_atColumn
  have hindenter := l.hook_indenter 0 type key ancestry
  by_cases hafter : key = "after"
  · subst hafter
    rw [hf.columnAfter (by decide) (by decide), hsame]
    have hplain : (f.valueFor (some ancestry) type "after").IsText isPlainText :=
      allTexts_valueFor hf.plain (by simp) ancestry type
    unfold Format.indented?
    split
    · rfl
    · rcases hplain with hv | ⟨s, hv, hs⟩
      · rename_i htruthy
        rw [hv] at htruthy
        exact absurd rfl htruthy
      · rw [hv]
        simp only [Indenter.value_of_isPlainText _ hs, Option.map_some]
  · obtain ⟨k, hk, -, hcolumn⟩ := Layout.hook_spaced (l := l) hf hi 0 type ancestry hafter hkey
    rw [hk] at hindenter
    obtain ⟨j, hj, heq⟩ := Option.map_eq_some_iff.1 hindenter.symm
    obtain rfl := (Prod.mk.inj heq).2
    rw [hj, hcolumn]

theorem indented?_of_isLevel (hf : f.Tidy) (hi : i.Blank w) {instr : Instr}
    (h : instr.isLevel = true) : instr.indented? f i = some i := by
  cases instr with
  | text buffer value location => rfl
  | template buffer s skipFirst location =>
    obtain ⟨text, htext, -⟩ := hi.template? s.toList skipFirst
    simp only [Instr.indented?, htext, Option.map_some]
  | hook buffer type key ancestry =>
    obtain ⟨name, hname⟩ := hf.keyText? key
    simp only [Instr.isLevel, List.all_eq_true, decide_eq_true_eq] at h
    obtain ⟨hsetting, hshift⟩ := h name (HookKey.keyText?_mem hname)
    simp only [Instr.indented?, hname, Option.bind_some]
    rw [hf.indented? hi ancestry type hsetting, hf.columnAfter hshift hsetting, hi.eq_atColumn]
  | indent n => cases h
  | dedent n => cases h
  | splice target source => rfl

/-- The second side of a shift undoes what the first one does. -/
theorem indented?_shift (hf : f.Tidy) (hi : i.Blank w) (sh : Shift) (before after : Ancestry) :
    ∃ j, (sh.opening before).indented? f i = some j ∧ j.Blank w ∧
      (sh.closing after).indented? f j = some i := by
  have hpaired (type : String) (e : Enclosure) : ∃ j,
      f.indented? i before type e.afterLeft = some j ∧ j.Blank w ∧
        f.indented? j after type e.beforeRight = some i := by
    have hat := hi.atColumn (f.columnAfter before type e.afterLeft w i.indentation.length)
    refine ⟨_, hf.indented? hi before type (by cases e <;> decide), hat, ?_⟩
    rw [hf.indented? hat after type (by cases e <;> decide), Indenter.length_atColumn,
      hf.paired e type before after]
    exact congrArg some hi.eq_atColumn
  cases sh with
  | levels =>
    have hat := hi.atColumn (i.indentation.length + w)
    refine ⟨_, hi.indent?, hat, hat.dedent?.trans (congrArg some ?_)⟩
    rw [Indenter.length_atColumn, Nat.add_sub_cancel]
    exact hi.eq_atColumn
  | inside buffer type e => exact hpaired type e
  | array buffer type elements =>
    simp only [Shift.opening, Shift.closing, Instr.indented?, Layout.keyText?, hf.isShort?,
      Option.bind_eq_bind, Option.bind_some, Option.pure_def]
    by_cases hshort : elements ≤ 4
    · simp only [hshort, decide_true, if_true]
      refine ⟨i, ?_, hi, ?_⟩
      · rw [hf.indented? hi _ _ (by decide), hf.columnAfter (by decide) (by decide), hi.eq_atColumn]
      · rw [hf.indented? hi _ _ (by decide), hf.columnAfter (by decide) (by decide), hi.eq_atColumn]
    · simp only [hshort, decide_false, Bool.false_eq_true, if_false]
      exact hpaired type .brackets

end Format.Tidy

/-- Balanced instructions can be carried out, and leave the indentation as it was. -/
theorem Balanced.indented (hf : f.Tidy) (h : Balanced is) {w : Nat}
    {i : Indenter} (hi : i.Blank w) : Instr.allIndented? f i is = some i := by
  induction h generalizing i with
  | nil => rfl
  | level hlevel =>
    simp only [Instr.allIndented?, List.foldlM_cons, hf.indented?_of_isLevel hi hlevel]
    rfl
  | append _ _ ih ih' =>
    rw [Instr.allIndented?_append, ih hi, Option.bind_some]
    exact ih' hi
  | @shifted sh before after is _ ih =>
    obtain ⟨j, hopening, hj, hclosing⟩ := hf.indented?_shift hi sh before after
    have hcons : Instr.allIndented? f i (sh.opening before :: (is ++ [sh.closing after])) =
        ((sh.opening before).indented? f i).bind
          (Instr.allIndented? f · (is ++ [sh.closing after])) := rfl
    rw [hcons, hopening, Option.bind_some, Instr.allIndented?_append, ih hj, Option.bind_some]
    simp only [Instr.allIndented?, List.foldlM_cons, hclosing]
    rfl

/-- Where balanced instructions are added, the indentation is in the end what it was before,
whatever texts have been taken back since. -/
theorem Layout.run_balanced {l k : Layout} {w : Nat} (hf : l.format.Tidy) (hi : l.indenter.Blank w)
    {js added : List Instr} (hjs : js.map Instr.blanked = is.map Instr.blanked ++ added)
    (hadded : Balanced added) (hk : l.run is = .ok k) :
    ∃ k', l.run js = .ok k' ∧ k'.indenter = k.indenter := by
  have hbefore : Instr.allIndented? l.format l.indenter is = some k.indenter := by
    rw [← l.runFrom_indenter 0, ← run, hk]
    rfl
  have hafter : Instr.allIndented? l.format l.indenter js = some k.indenter := by
    rw [← Instr.allIndented?_blanked, hjs, Instr.allIndented?_append, Instr.allIndented?_blanked,
      hbefore, Option.bind_some]
    exact hadded.indented hf (hi.allIndented? hbefore)
  rw [← l.runFrom_indenter 0] at hafter
  obtain ⟨k', hk', hindenter⟩ := Option.map_eq_some_iff.1 hafter
  refine ⟨k', ?_, hindenter⟩
  unfold run
  cases hrun : l.runFrom 0 js with
  | error _ =>
    rw [hrun] at hk'
    cases hk'
  | ok other =>
    rw [hrun] at hk'
    exact congrArg _ (Option.some.inj hk')

end ObjectiveJ
