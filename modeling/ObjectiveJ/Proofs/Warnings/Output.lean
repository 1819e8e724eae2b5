import ObjectiveJ.Proofs.Compile
import ObjectiveJ.Proofs.Warnings.Blind

/-!
# Warnings and the result of a unit

Two compilers that differ only in which warnings are on walk through a program in the same way. So
what comes out has the same code, source map, errors and symbol tables.
-/

namespace ObjectiveJ

open Gen

/-! ### Fatal errors -/

namespace Diagnostics

variable {d d' : Diagnostics}

theorem SameErrors.makeNote? (h : d.SameErrors d') (place message : Value) :
    d'.makeNote? place message = d.makeNote? place message := by
  simp only [Diagnostics.makeNote?, h.line?]

theorem SameErrors.ofFatal? (h : d.SameErrors d') (f : Fatal) : d'.ofFatal? f = d.ofFatal? f := by
  simp only [Diagnostics.ofFatal?, h.line?, h.makeNote?]

theorem errors_addFatal {i : Issue} (hi : i.severity = .error) :
    (d.addFatal i).errors = d.errors ++ [i] := by
  simp [errors, list, addFatal, Issue.isError, hi]

theorem hasErrors_eq : d.hasErrors = d.errors.any Issue.isError := by
  simp [hasErrors, errors, List.any_filter]

end Diagnostics

namespace Compiler

variable {c : Compiler} {symbols : Symbols} {u : CompileUnit}

def withWarnings (c : Compiler) (warnings : Table String Bool) (ignoreWarnings : Bool) : Compiler :=
  { c with options := { c.options with warnings, ignoreWarnings } }

/-- The walk does the same whatever warnings are on, unless it crashes. -/
theorem outcome_withWarnings (warnings : Table String Bool) (ignoreWarnings : Bool)
    (source : Option String) (stop : Option Nat) :
    SameOutcome (fun e => e.isCrash = true) (fun e => e.isCrash = true) GenState.Twins
      (c.outcome symbols u source stop)
      ((c.withWarnings warnings ignoreWarnings).outcome symbols u source stop) := by
  have hblind (program : Value) : Blind (generate program) :=
    blindLaw_runs.scopes.generate trivial 0
  refine hblind _ _ _ ⟨⟨⟨rfl, rfl, rfl, rfl, rfl, rfl, rfl⟩, ⟨rfl, rfl, rfl, fun _ _ => rfl⟩⟩,
    ⟨nofun, ?_⟩, nofun, ?_⟩
  · rintro p ⟨id, f, hf, _⟩
    simp [start, Frames.frame?] at hf
  · rintro p ⟨id, f, hf, _⟩
    simp [start, Frames.frame?] at hf

/-- Two results that differ in their warnings at most. -/
structure SameButWarnings (r r' : CompileResult) : Prop where
  code : r'.code = r.code
  sourceMap : r'.sourceMap = r.sourceMap
  success : r'.success = r.success
  /-- With their notes, and in the same order. -/
  errors : r'.diagnostics.errors = r.diagnostics.errors

theorem conclude_sameErrors {d d' e e' : Diagnostics} {outcome : Except Failure Unit}
    (h : d.SameErrors d') (he : conclude d outcome = .ok e) (he' : conclude d' outcome = .ok e') :
    e'.errors = e.errors := by
  rcases outcome with failure | _
  · cases failure with
    | fatal f =>
      simp only [conclude, h.ofFatal?] at he he'
      cases hissue : d.ofFatal? f with
      | none =>
        rw [hissue] at he
        cases he
      | some issue =>
        rw [hissue] at he he'
        cases he
        obtain rfl := Except.ok.inj he'
        have hseverity := Diagnostics.ofFatal?_severity hissue
        rw [Diagnostics.errors_addFatal hseverity, Diagnostics.errors_addFatal hseverity, h.errors]
    | uncompilable message => cases he
    | arity e => cases he
    | incomplete => cases he
  · cases he
    obtain rfl := Except.ok.inj he'
    exact h.errors

theorem not_crashes_of_conclude {d e : Diagnostics} {outcome : Except Failure Unit}
    (h : conclude d outcome = .ok e) : ¬ Crashes outcome := by
  rintro ⟨failure, rfl, hcrash⟩
  cases failure with
  | fatal f => cases hcrash
  | uncompilable message => cases h
  | arity e => cases h
  | incomplete => cases h

/-- Which warnings are on changes nothing but the warnings. -/
theorem compile_withWarnings (warnings : Table String Bool) (ignoreWarnings : Bool)
    {r r' : CompileResult} (h : (c.compile symbols u).1 = .ok r)
    (h' : ((c.withWarnings warnings ignoreWarnings).compile symbols u).1 = .ok r') :
    SameButWarnings r r' ∧
      ((c.withWarnings warnings ignoreWarnings).compile symbols u).2 = (c.compile symbols u).2 := by
  obtain ⟨indenter, layout, source, hindenter, hsource, hrun, hsymbols, hd, hout⟩ :=
    run_of_compile h
  obtain ⟨indenter', layout', source', hindenter', hsource', hrun', hsymbols', hd', hout'⟩ :=
    run_of_compile h'
  obtain rfl : indenter = indenter' := Option.mem_unique hindenter hindenter'
  obtain rfl : source = source' := Option.mem_unique hsource hsource'
  rcases outcome_withWarnings warnings ignoreWarnings source none with
    hcrash | hcrash | ⟨houtcome, htwins⟩
  · exact absurd hcrash (not_crashes_of_conclude hd)
  · exact absurd hcrash (not_crashes_of_conclude hd')
  have hagrees := htwins.alike.agrees
  rw [hagrees.trace] at hrun'
  obtain rfl : layout = layout' := Except.ok.inj (hrun.symm.trans hrun')
  have hsame : (r'.code, r'.sourceMap) = (r.code, r.sourceMap) :=
    Option.mem_unique (output?_of_finish hout') (output?_of_finish hout)
  rw [houtcome] at hd'
  have herrors := conclude_sameErrors htwins.alike.diagnostics hd hd'
  refine ⟨⟨congrArg Prod.fst hsame, congrArg Prod.snd hsame, ?_, herrors⟩, ?_⟩
  · rw [CompileResult.success, CompileResult.success, Diagnostics.hasErrors_eq,
      Diagnostics.hasErrors_eq, herrors]
  · rw [hsymbols, hsymbols', hagrees.symbols]

/-- The unit of a function that assigns an unknown name to a name that is not declared. -/
def implicitGlobal : CompileUnit where
  program := .program [.function "add" []
    [.statement (.assign (.name "total") (.name "amount"))]]
  file := .str "src/main.j"

def warning : Compiler where
  options := {}
  format := {}
  predefined := {}

theorem compile_implicitGlobal_withWarnings :
    ∃ r r', (warning.compile {} implicitGlobal).1 = .ok r ∧
      ((warning.withWarnings {} true).compile {} implicitGlobal).1 = .ok r' ∧
      r.diagnostics.warningCount = 2 ∧ r'.diagnostics.warningCount = 0 ∧ SameButWarnings r r' ∧
      ((warning.withWarnings {} true).compile {} implicitGlobal).2 =
        (warning.compile {} implicitGlobal).2 := by
  let count (r : CompileResult) : Nat := r.diagnostics.warningCount
  obtain ⟨r, hr, hcount⟩ := exists_ok_of_map (f := count) (b := 2)
    (x := (warning.compile {} implicitGlobal).1) (by decide +kernel)
  obtain ⟨r', hr', hcount'⟩ := exists_ok_of_map (f := count) (b := 0)
    (x := ((warning.withWarnings {} true).compile {} implicitGlobal).1) (by decide +kernel)
  exact ⟨r, r', hr, hr', hcount, hcount', compile_withWarnings {} true hr hr'⟩

end Compiler

end ObjectiveJ
