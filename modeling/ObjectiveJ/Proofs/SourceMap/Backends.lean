import ObjectiveJ.Proofs.SourceMap.Exact

/-!
# Code with and without a source map

A compiler that is to give a source map keeps the places of fragments, and lays out the same code as
one that is not. All that the source map adds to the code is one line that names it.
-/

namespace ObjectiveJ

/-- Two layouts whose buffers hold the same values, and so the same text. -/
structure Layout.Alike (l l' : Layout) : Prop where
  values : ∀ buffer, (l.fragments buffer).map (·.value) = (l'.fragments buffer).map (·.value)
  size : ∀ buffer, (l.fragments buffer).size = (l'.fragments buffer).size
  isEmpty : ∀ buffer, (l.fragments buffer).isEmpty = (l'.fragments buffer).isEmpty
  text : ∀ buffer, Fragment.text? (l.fragments buffer).toList =
    Fragment.text? (l'.fragments buffer).toList

theorem Layout.alike_unplaced (l : Layout) : l.Alike l.unplaced where
  values buffer := by
    rw [fragments_unplaced, Array.map_map]
    rfl
  size buffer := by rw [fragments_unplaced, Array.size_map]
  isEmpty buffer := by rw [fragments_unplaced, Array.isEmpty, Array.isEmpty, Array.size_map]
  text buffer := by rw [fragments_unplaced, Array.toList_map, Fragment.text?_unplaced]

namespace Compiler

variable {c : Compiler} {symbols : Symbols} {u : CompileUnit}

def withSourceMap (c : Compiler) (on : Bool) : Compiler :=
  { c with options := { c.options with sourceMap := on } }

/-- The line that names a source map is one line. -/
theorem trailer_eq (name : String) : ∃ line, '\n' ∉ line ∧
    (trailer name).toList = "//# sourceMappingURL=".toList ++ line ++ ['\n'] := by
  have happend (a b c : String) : (a ++ b ++ c).toList = a.toList ++ b.toList ++ c.toList := by
    rw [String.toList_append, String.toList_append]
  refine ⟨_, fun hmem => ?_, happend ..⟩
  obtain h | h := Text.mem_percentEncode hmem
  · cases h
  · cases h

/-- The line that names a source map stands on a line of its own. -/
theorem terminated_eq (s : String) : ∃ code, terminated s = code ++ "\n" := by
  unfold terminated
  split
  · rename_i hend
    rw [Text.endsWith, List.isSuffixOf_iff_suffix] at hend
    obtain ⟨cs, hcs⟩ := hend
    refine ⟨String.ofList cs, ?_⟩
    rw [← String.toList_inj, String.toList_append, String.toList_ofList, ← hcs]
    rfl
  · exact ⟨s, rfl⟩

/-- Whatever instructions have been carried out, the buffers are alike. -/
theorem layout_run_alike (c : Compiler) (indenter : Indenter) (is : List Instr) :
    (∃ l l', ((c.withSourceMap true).layout indenter).run is = .ok l ∧
        ((c.withSourceMap false).layout indenter).run is = .ok l' ∧ l.Alike l') ∨
      ∃ number, ((c.withSourceMap true).layout indenter).run is = .error number ∧
        ((c.withSourceMap false).layout indenter).run is = .error number := by
  have hplaced : (c.withSourceMap true).layout indenter = { format := c.format, indenter } := rfl
  have hplain : (c.withSourceMap false).layout indenter =
      ({ format := c.format, indenter } : Layout).unplaced := layout_eq_unplaced rfl indenter
  rw [hplain, hplaced, Layout.run, Layout.run, Layout.runFrom_unplaced]
  cases ({ format := c.format, indenter } : Layout).runFrom 0 is with
  | ok l => exact .inl ⟨l, _, rfl, rfl, l.alike_unplaced⟩
  | error number => exact .inr ⟨number, rfl, rfl⟩

/-- What there is with a source map, given what there is without one: the code with one more line,
or an error if the line or the map cannot be written. -/
inductive Mapped (u : CompileUnit) (fragments : List Fragment) (r : CompileResult) :
    Except CompileError CompileResult → Prop
  | ok (name map : String) (hname : outputName? u = some (.str name))
      (hplaces : ∀ f ∈ fragments, ∀ l, f.location = some l → l.IsMappable) :
      Mapped u fragments r (.ok { r with code := r.code ++ trailer name, sourceMap := some map })
  | unnamed (hname : ∀ name, outputName? u ≠ some (.str name)) :
      Mapped u fragments r (.error .broken)
  | unmapped (f : Fragment) (hf : f ∈ fragments) (l : Location) (hl : f.location = some l)
      (hplace : ¬ l.IsMappable) : Mapped u fragments r (.error .broken)

theorem finish_of_text {layout : Layout} {text : String} {name : Json} (d : Diagnostics)
    (htext : Fragment.text? (layout.fragments 0).toList = some text)
    (hname : outputName? u = some name) :
    Mapped u (layout.fragments 0).toList
      { code := terminated text, sourceMap := none, diagnostics := d }
      ((c.withSourceMap true).finish u layout d) := by
  unfold finish output?
  rw [htext, hname]
  simp only [withSourceMap, Option.bind_eq_bind, Option.bind_some, Bool.not_true,
    Bool.false_eq_true, if_false]
  cases hmappings : SourceMap.ofFragments? {} (layout.fragments 0).toList with
  | none =>
    have hplaces := mt (SourceMap.ofFragments?_isSome_iff (p := {}) htext).2 (by simp [hmappings])
    push Not at hplaces
    obtain ⟨f, hf, l, hl, hplace⟩ := hplaces
    exact .unmapped f hf l hl hplace
  | some mappings =>
    have hplaces := (SourceMap.ofFragments?_isSome_iff htext).1 ⟨mappings, hmappings⟩
    cases name with
    | str name => exact .ok name _ hname hplaces
    | _ => exact .unnamed fun name h => by rw [hname] at h; cases h

theorem finish_mapped (c : Compiler) (u : CompileUnit) (layout : Layout) (d : Diagnostics) :
    (c.withSourceMap true).finish u layout d = .error .broken ∧
        (c.withSourceMap false).finish u layout d = .error .broken ∨
      ∃ code, Mapped u (layout.fragments 0).toList
          { code := code ++ "\n", sourceMap := none, diagnostics := d }
          ((c.withSourceMap true).finish u layout d) ∧
        (c.withSourceMap false).finish u layout d =
          .ok { code := code ++ "\n", sourceMap := none, diagnostics := d } := by
  cases htext : Fragment.text? (layout.fragments 0).toList with
  | none => exact .inl ⟨by simp [finish, output?, htext], by simp [finish, output?, htext]⟩
  | some text =>
    cases hname : outputName? u with
    | none =>
      exact .inl ⟨by simp [finish, output?, htext, hname], by simp [finish, output?, htext, hname]⟩
    | some name =>
      obtain ⟨code, hcode⟩ := terminated_eq text
      refine .inr ⟨code, hcode ▸ finish_of_text d htext hname, ?_⟩
      simp [finish, output?, htext, hname, withSourceMap, hcode]

/-- A source map adds one line to the code, if it can be written. Both ways the buffers are alike
after any instructions, the walk through the program is the same, and so are the issues, the errors
and the symbols. -/
theorem compile_withSourceMap (c : Compiler) (symbols : Symbols) (u : CompileUnit) :
    (∀ indenter is,
      (∃ l l', ((c.withSourceMap true).layout indenter).run is = .ok l ∧
          ((c.withSourceMap false).layout indenter).run is = .ok l' ∧ l.Alike l') ∨
        ∃ number, ((c.withSourceMap true).layout indenter).run is = .error number ∧
          ((c.withSourceMap false).layout indenter).run is = .error number) ∧
      (∀ source stop, (c.withSourceMap true).outcome symbols u source stop =
        (c.withSourceMap false).outcome symbols u source stop) ∧
      ((c.withSourceMap true).compile symbols u).2 = ((c.withSourceMap false).compile symbols u).2 ∧
      ((∃ e, ((c.withSourceMap true).compile symbols u).1 = .error e ∧
          ((c.withSourceMap false).compile symbols u).1 = .error e) ∨
        ∃ fragments code d, (c.withSourceMap true).IsMadeOf symbols u fragments ∧
          Mapped u fragments { code := code ++ "\n", sourceMap := none, diagnostics := d }
            ((c.withSourceMap true).compile symbols u).1 ∧
          ((c.withSourceMap false).compile symbols u).1 =
            .ok { code := code ++ "\n", sourceMap := none, diagnostics := d }) ∧
      ∀ name, ∃ line, '\n' ∉ line ∧
        (trailer name).toList = "//# sourceMappingURL=".toList ++ line ++ ['\n'] := by
  refine ⟨layout_run_alike c, fun _ _ => rfl, ?_⟩
  rw [← and_assoc]
  refine ⟨?_, trailer_eq⟩
  cases hindenter : c.indenter? with
  | none =>
    have hboth (on : Bool) : (c.withSourceMap on).compile symbols u = (.error .broken, symbols) :=
      compile_of_indenter?_eq_none hindenter
    rw [hboth, hboth]
    exact ⟨rfl, .inl ⟨_, rfl, rfl⟩⟩
  | some indenter =>
    cases hsource : u.source? with
    | none =>
      have hboth (on : Bool) : (c.withSourceMap on).compile symbols u =
          (.error .broken, symbols) := compile_of_source?_eq_none hsource
      rw [hboth, hboth]
      exact ⟨rfl, .inl ⟨_, rfl, rfl⟩⟩
    | some source =>
      have hboth (on : Bool) : (c.withSourceMap on).compile symbols u = _ :=
        compile_eq hindenter hsource
      have houtcome (on : Bool) (stop : Option Nat) :
          (c.withSourceMap on).outcome symbols u source stop =
            c.outcome symbols u source stop := rfl
      have hformat (on : Bool) : (c.withSourceMap on).format = c.format := rfl
      simp only [houtcome, hformat] at hboth
      rw [hboth, hboth]
      cases hrun : ({ format := c.format, indenter } : Layout).run
          (c.outcome symbols u source none).2.trace.toList with
      | error number => exact ⟨rfl, .inl ⟨_, rfl, rfl⟩⟩
      | ok layout =>
        refine ⟨rfl, ?_⟩
        cases conclude (c.outcome symbols u source none).2.diagnostics
            (c.outcome symbols u source none).1 with
        | error e => exact .inl ⟨e, rfl, rfl⟩
        | ok d =>
          obtain ⟨hon, hoff⟩ | ⟨code, hon, hoff⟩ := finish_mapped c u layout d
          · exact .inl ⟨_, hon, hoff⟩
          · exact .inr ⟨_, code, d,
              ⟨indenter, layout, source, hindenter, hsource, hrun, rfl⟩, hon, hoff⟩

end Compiler

end ObjectiveJ
