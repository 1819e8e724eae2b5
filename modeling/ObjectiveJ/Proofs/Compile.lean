import ObjectiveJ.Compiler
import ObjectiveJ.Proofs.Layout.Places
import ObjectiveJ.Proofs.Run
import ObjectiveJ.Tree.Plain

/-!
# What becomes of a unit

A unit is compiled by one walk through its program, whose outcome decides about the result. If the
walk comes to its end (`Compiler.Finishes`), the result has the code that the walk has written. If
it fails, there is no result, or one with an error.
-/

namespace ObjectiveJ

theorem exists_ok_of_map {ε α β : Type} {x : Except ε α} {f : α → β} {b : β}
    (h : x.toOption.map f = some b) : ∃ a, x = .ok a ∧ f a = b := by
  cases x with
  | error e => cases h
  | ok a => exact ⟨a, rfl, Option.some.inj h⟩

variable {d : Diagnostics} {i : Issue}

theorem Diagnostics.hasErrors_addFatal (d : Diagnostics) (hi : i.severity = .error) :
    (d.addFatal i).hasErrors = true := by
  simp [addFatal, hasErrors, list, Issue.isError, hi]

theorem Diagnostics.ofFatal?_eq {f : Fatal} (h : d.ofFatal? f = some i) :
    i.severity = .error ∧ i.message = f.cause.message ∧ i.place = .ofLocation f.location := by
  have hnotes : ∀ line, (do
      let notes ← f.cause.notes.mapM fun p => d.makeNote? (.ofLocation p.1) p.2
      pure { severity := .error, message := f.cause.message, place := .ofLocation f.location, line,
             notes : Issue }) = some i →
      i.severity = .error ∧ i.message = f.cause.message ∧ i.place = .ofLocation f.location := by
    intro line h
    obtain ⟨notes, _, h⟩ := Option.bind_eq_some_iff.1 h
    cases h
    exact ⟨rfl, rfl, rfl⟩
  unfold ofFatal? at h
  split at h
  · exact hnotes _ h
  · obtain ⟨line, _, h⟩ := Option.bind_eq_some_iff.1 h
    exact hnotes line h

theorem Diagnostics.ofFatal?_severity {f : Fatal} (h : d.ofFatal? f = some i) :
    i.severity = .error := (ofFatal?_eq h).1

namespace Compiler

variable {indenter : Indenter} {r : CompileResult}

variable {c : Compiler} {symbols : Symbols} {u : CompileUnit} {source : Option String}

/-- The outcome of a walk through the program of a unit, and the state that it comes to. The walk
may be stopped at an instruction. -/
def outcome (c : Compiler) (symbols : Symbols) (u : CompileUnit) (source : Option String)
    (stop : Option Nat) : Except Failure Unit × GenState :=
  let (program, nodes) := u.program.numbered.run symbols.nodes
  let start := c.start { symbols with nodes } source
  (generate program).run.run { start with settings := { start.settings with stop } }

/-- The walk through the program of a unit comes to its end. -/
def Finishes (c : Compiler) (symbols : Symbols) (u : CompileUnit) : Prop :=
  ∃ source, u.source? = some source ∧ (c.outcome symbols u source none).1 = .ok ()

theorem walkThrough_eq (program : Value) (layout : Layout) (start : GenState) :
    walkThrough program layout start =
      match layout.run ((generate program).run.run start).2.trace.toList with
      | .ok layout =>
        (((generate program).run.run start).1, ((generate program).run.run start).2, some layout)
      | .error number =>
        let stopped := (generate program).run.run
          { start with settings := { start.settings with stop := some number } }
        (stopped.1, stopped.2, none) := by
  unfold walkThrough
  obtain ⟨result, s⟩ := (generate program).run.run start
  simp only []
  cases layout.run s.trace.toList with
  | ok layout => rfl
  | error number => rfl

theorem finish_unplaced (hmap : c.options.sourceMap = false) (layout : Layout) (d : Diagnostics) :
    c.finish u layout.unplaced d = c.finish u layout d := by
  have houtput : c.output? u (layout.unplaced.fragments 0).toList =
      c.output? u (layout.fragments 0).toList := by
    rw [Layout.fragments_unplaced, Array.toList_map]
    simp only [output?, Fragment.text?_unplaced, hmap]
    rfl
  rw [finish, finish, houtput]

/-- Without a source map the places are not kept. -/
theorem layout_eq_unplaced (hmap : c.options.sourceMap = false) (indenter : Indenter) :
    c.layout indenter = ({ format := c.format, indenter } : Layout).unplaced := by
  rw [layout, hmap, Layout.unplaced, Array.map_empty]

/-- A unit whose instructions can be carried out has the result of its walk. Else the walk is
stopped at the instruction that cannot. -/
theorem compile_eq (hindenter : c.indenter? = some indenter) (hsource : u.source? = some source) :
    c.compile symbols u = match ({ format := c.format, indenter } : Layout).run
        (c.outcome symbols u source none).2.trace.toList with
      | .ok layout =>
        (conclude (c.outcome symbols u source none).2.diagnostics
          (c.outcome symbols u source none).1 >>= c.finish u layout,
          (c.outcome symbols u source none).2.symbols)
      | .error number => (.error .broken,
          (c.outcome symbols u source (some number)).2.symbols) := by
  simp only [compile, hindenter, hsource, outcome]
  obtain ⟨program, nodes⟩ := u.program.numbered.run symbols.nodes
  have hstart : { c.start { symbols with nodes } source with
      settings := { (c.start { symbols with nodes } source).settings with stop := none } } =
        c.start { symbols with nodes } source := rfl
  simp only []
  rw [hstart, walkThrough_eq]
  generalize c.start { symbols with nodes } source = start
  cases hmap : c.options.sourceMap with
  | true =>
    rw [layout, hmap]
    cases Layout.run _ ((generate program).run.run start).2.trace.toList <;> rfl
  | false =>
    rw [layout_eq_unplaced hmap indenter, Layout.run, Layout.runFrom_unplaced, ← Layout.run]
    cases Layout.run _ ((generate program).run.run start).2.trace.toList with
    | error number => rfl
    | ok layout =>
      have hfinish : c.finish u layout.unplaced = c.finish u layout :=
        funext (finish_unplaced hmap layout)
      simp only [Except.map, hfinish]

theorem compile_of_indenter?_eq_none (h : c.indenter? = none) :
    c.compile symbols u = (.error .broken, symbols) := by
  rw [compile, h]

theorem compile_of_source?_eq_none (h : u.source? = none) :
    c.compile symbols u = (.error .broken, symbols) := by
  rw [compile, h]
  cases c.indenter? <;> rfl

theorem compile_of_run {layout : Layout}
    (hindenter : c.indenter? = some indenter) (hsource : u.source? = some source)
    (hrun : ({ format := c.format, indenter } : Layout).run
      (c.outcome symbols u source none).2.trace.toList = .ok layout) :
    c.compile symbols u =
      (conclude (c.outcome symbols u source none).2.diagnostics
          (c.outcome symbols u source none).1 >>= c.finish u layout,
        (c.outcome symbols u source none).2.symbols) := by
  rw [compile_eq hindenter hsource, hrun]

theorem finish_diagnostics {layout : Layout} (h : c.finish u layout d = .ok r) :
    r.diagnostics = d := by
  unfold finish at h
  split at h
  · cases h
    rfl
  · cases h

theorem output?_of_finish {layout : Layout} (h : c.finish u layout d = .ok r) :
    c.output? u (layout.fragments 0).toList = some (r.code, r.sourceMap) := by
  unfold finish at h
  split at h
  · rename_i houtput
    cases h
    exact houtput
  · cases h

theorem run_of_compile (h : (c.compile symbols u).1 = .ok r) :
    ∃ indenter layout source, c.indenter? = some indenter ∧ u.source? = some source ∧
      ({ format := c.format, indenter } : Layout).run
        (c.outcome symbols u source none).2.trace.toList = .ok layout ∧
      (c.compile symbols u).2 = (c.outcome symbols u source none).2.symbols ∧
      conclude (c.outcome symbols u source none).2.diagnostics
        (c.outcome symbols u source none).1 = .ok r.diagnostics ∧
      c.finish u layout r.diagnostics = .ok r := by
  cases hindenter : c.indenter? with
  | none =>
    rw [compile_of_indenter?_eq_none hindenter] at h
    cases h
  | some indenter =>
    cases hsource : u.source? with
    | none =>
      rw [compile_of_source?_eq_none hsource] at h
      cases h
    | some source =>
      rw [compile_eq hindenter hsource] at h ⊢
      split at h
      · rename_i layout hrun
        cases hd : conclude (c.outcome symbols u source none).2.diagnostics
            (c.outcome symbols u source none).1 with
        | error e =>
          rw [hd] at h
          cases h
        | ok d =>
          rw [hd] at h
          obtain rfl := finish_diagnostics h
          exact ⟨indenter, layout, source, rfl, rfl, hrun, rfl, hd, h⟩
      · cases h

/-- A unit without errors has been walked through to its end. -/
theorem finishes_of_success (h : (c.compile symbols u).1 = .ok r) (hsuccess : r.success = true) :
    c.Finishes symbols u := by
  obtain ⟨-, -, source, -, hsource, -, -, hd, -⟩ := run_of_compile h
  refine ⟨source, hsource, ?_⟩
  cases houtcome : (c.outcome symbols u source none).1 with
  | ok => rfl
  | error failure =>
    rw [houtcome] at hd
    cases failure with
    | fatal f =>
      simp only [conclude] at hd
      split at hd
      · rename_i issue hissue
        rw [CompileResult.success, ← Except.ok.inj hd,
          Diagnostics.hasErrors_addFatal _ (Diagnostics.ofFatal?_severity hissue)] at hsuccess
        cases hsuccess
      · cases hd
    | uncompilable message => cases hd
    | arity e => cases hd
    | incomplete => cases hd

end Compiler

end ObjectiveJ
