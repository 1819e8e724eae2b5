import ObjectiveJ.Proofs.Layout.Columns
import ObjectiveJ.Proofs.Style.Peers
import ObjectiveJ.Proofs.Warnings.Output

/-!
# Style and the result of a unit

Compilers that write code in different styles find out the same about a unit: they report the same
issues and leave the same symbols (`Compiler.compile_restyled`).

All that a style can do besides is to break off a unit, if what is to be written cannot be written.
With a *regular* format this has nothing to do with the layout: every hook has a text, every
indentation can be built, and so all instructions can be carried out.
-/

namespace ObjectiveJ

open Gen

/-! ### Regular formats -/

namespace Indenter

/-- Whether the indentation can be changed so with a step. -/
def Directive.fits (step : IndentStep) : Directive → Bool
  | .none => true
  | .by n => n ≤ 0 || (step.times? (.int n)).isSome
  | .tooLong => false

variable {i : Indenter}

theorem exists_indent? {n : Int} (hn : (i.step.times? (.int n)).isSome) :
    ∃ j, i.indent? (.int n) = some j ∧ j.step = i.step := by
  obtain ⟨text, htext⟩ := Option.isSome_iff_exists.1 hn
  refine ⟨{ i with indentation := i.indentation ++ text }, ?_, rfl⟩
  rw [indent?, htext]
  rfl

theorem exists_dedent? (hstep : i.step.text?.isSome) (n : Int) :
    ∃ j, i.dedent? (.int n) = some j ∧ j.step = i.step := by
  have hlength : ∃ size, i.step.length? = some size := by
    cases hi : i.step with
    | text cs => exact ⟨_, rfl⟩
    | _ =>
      rw [hi] at hstep
      cases hstep
  obtain ⟨size, hsize⟩ := hlength
  refine ⟨{ i with indentation := Text.sliceFrom (size * n) i.indentation }, ?_, rfl⟩
  rw [dedent?, hsize]
  rfl

theorem exists_shift? (hstep : i.step.text?.isSome) {d : Directive} (hd : d.fits i.step = true) :
    ∃ j, i.shift? d = some j ∧ j.step = i.step := by
  cases d with
  | none => exact ⟨i, rfl, rfl⟩
  | tooLong => cases hd
  | «by» n =>
    unfold shift?
    dsimp only
    split
    · rename_i hpos
      have hnot : ¬ n ≤ 0 := by omega
      simp only [Directive.fits, hnot, decide_false, Bool.false_or] at hd
      exact exists_indent? hd
    split
    · exact exists_dedent? hstep _
    · exact ⟨i, rfl, rfl⟩

theorem exists_valueLines (hstep : i.step.text?.isSome) {lines : List (List Char)}
    (hlines : ∀ line ∈ lines, (directive line).2.fits i.step = true) :
    ∃ j, (∃ texts, i.valueLines lines = (j, some texts)) ∧ j.step = i.step := by
  induction lines generalizing i with
  | nil => exact ⟨i, ⟨[], rfl⟩, rfl⟩
  | cons line rest ih =>
    obtain ⟨j, hj, hjstep⟩ := exists_shift? hstep (hlines line (.head _))
    obtain ⟨k, ⟨texts, hk⟩, hkstep⟩ := ih (hjstep ▸ hstep) fun l hl =>
      hjstep ▸ hlines l (.tail _ hl)
    refine ⟨k, ?_, hkstep.trans hjstep⟩
    simp only [valueLines, hj, hk, Option.map_some]
    exact ⟨_, rfl⟩

theorem exists_value (hstep : i.step.text?.isSome) {cs : List Char}
    (hcs : (directives cs).all (·.fits i.step) = true) :
    ∃ j, (∃ text, i.value cs = (j, some text)) ∧ j.step = i.step := by
  simp only [directives, List.all_map, List.all_eq_true, Function.comp_apply] at hcs
  unfold value
  split
  · exact ⟨i, ⟨[], rfl⟩, rfl⟩
  · rename_i first rest hsplit
    rw [hsplit] at hcs
    obtain ⟨j, hj, hjstep⟩ := exists_shift? hstep (hcs first (.head _))
    obtain ⟨k, ⟨texts, hk⟩, hkstep⟩ := exists_valueLines (i := j) (hjstep ▸ hstep) fun l hl =>
      hjstep ▸ hcs l (.tail _ hl)
    refine ⟨k, ?_, hkstep.trans hjstep⟩
    simp only [hj, hk, Option.map_some]
    exact ⟨_, rfl⟩

end Indenter

/-- A format that has a text or nothing for every hook, and whose indentations can be built with a
step. -/
structure Format.Regular (f : Format) (step : IndentStep) : Prop where
  isText : step.text?.isSome
  level : (step.times? (.int 1)).isSome
  limit : f.global "single-line-array-limit" = .null ∨
    ∃ n, f.global "single-line-array-limit" = .int n
  hooks : ∀ ancestry type key, key ∉ settingKeys →
    (f.valueFor ancestry type key).IsText fun cs => (Indenter.directives cs).all (·.fits step)

namespace Format.Regular

variable {f : Format} {i : Indenter}

theorem exists_keyText? (h : f.Regular i.step) (key : HookKey) :
    ∃ name, Layout.keyText? f key = some name := by
  have hshort (elements : Nat) : ∃ short, Layout.isShort? f elements = some short := by
    unfold Layout.isShort?
    dsimp only
    split
    · exact ⟨_, rfl⟩
    · rename_i htruthy
      obtain hlimit | ⟨n, hlimit⟩ := h.limit
      · rw [hlimit] at htruthy
        exact absurd rfl htruthy
      · rw [hlimit]
        exact ⟨_, rfl⟩
  cases key with
  | plain key => exact ⟨key, rfl⟩
  | bracket side name elements =>
    obtain ⟨short, hshort⟩ := hshort elements
    exact ⟨_, by rw [Layout.keyText?, hshort]; rfl⟩

theorem exists_indented? (h : f.Regular i.step) (ancestry : Ancestry) (type : String) {key : String}
    (hkey : key ∉ settingKeys) :
    ∃ j, f.indented? i ancestry type key = some j ∧ j.step = i.step := by
  unfold Format.indented?
  split
  · exact ⟨i, rfl, rfl⟩
  · rename_i htruthy
    obtain hv | ⟨s, hv, hs⟩ := h.hooks (some ancestry) type key hkey
    · rw [hv] at htruthy
      exact absurd rfl htruthy
    · rw [hv]
      obtain ⟨j, ⟨text, hvalue⟩, hstep⟩ := Indenter.exists_value h.isText hs
      exact ⟨j, by simp only [hvalue, Option.map_some], hstep⟩

theorem exists_instr (h : f.Regular i.step) {instr : Instr} (hinstr : instr.isUsual = true) :
    ∃ j, instr.indented? f i = some j ∧ j.step = i.step := by
  cases instr with
  | text buffer value location => exact ⟨i, rfl, rfl⟩
  | template buffer s skipFirst location =>
    obtain ⟨cs, hcs⟩ := Option.isSome_iff_exists.1 h.isText
    exact ⟨i, by rw [Instr.indented?, Indenter.template?, hcs]; rfl, rfl⟩
  | hook buffer type key ancestry =>
    obtain ⟨name, hname⟩ := h.exists_keyText? key
    simp only [Instr.isUsual, List.all_eq_true, decide_eq_true_eq] at hinstr
    obtain ⟨j, hj, hstep⟩ := h.exists_indented? ancestry type
      (hinstr name (HookKey.keyText?_mem hname))
    exact ⟨j, by rw [Instr.indented?, hname]; exact hj, hstep⟩
  | indent n =>
    simp only [Instr.isUsual, decide_eq_true_eq] at hinstr
    subst hinstr
    exact Indenter.exists_indent? h.level
  | dedent n => exact Indenter.exists_dedent? h.isText n
  | splice target source => exact ⟨i, rfl, rfl⟩

theorem exists_allIndented? (h : f.Regular i.step) {is : List Instr}
    (his : ∀ instr ∈ is, instr.isUsual = true) : ∃ j, Instr.allIndented? f i is = some j := by
  induction is generalizing i with
  | nil => exact ⟨i, rfl⟩
  | cons instr rest ih =>
    obtain ⟨j, hj, hstep⟩ := h.exists_instr (his instr (.head _))
    obtain ⟨k, hk⟩ := ih (hstep ▸ h) fun instr hinstr => his instr (.tail _ hinstr)
    refine ⟨k, ?_⟩
    rw [Instr.allIndented?, List.foldlM_cons, hj]
    exact hk

end Format.Regular

theorem Format.Tidy.regular {f : Format} {i : Indenter} {w : Nat} (hf : f.Tidy) (hi : i.Blank w) :
    f.Regular i.step := by
  have hlevel : (i.step.times? (.int 1)).isSome := by
    have hindent := hi.indent?
    cases htimes : i.step.times? (.int 1) with
    | none => simp [Indenter.indent?, htimes] at hindent
    | some text => rfl
  have hsmall {d : Indenter.Directive} (hd : d.isSmall = true) : d.fits i.step = true := by
    simp only [Indenter.Directive.isSmall, Bool.or_eq_true, decide_eq_true_eq] at hd
    rcases hd with (rfl | rfl) | rfl
    · rfl
    · simpa [Indenter.Directive.fits] using hlevel
    · rfl
  refine ⟨by rw [hi.step]; rfl, hlevel, .inr ⟨4, hf.limit⟩, fun ancestry type key hkey => ?_⟩
  have hfits (cs : List Char) (hcs : Indenter.isSpacing cs = true ∨ isPlainText cs = true) :
      (Indenter.directives cs).all (·.fits i.step) = true := by
    rcases hcs with hspacing | hplain
    · simp only [Indenter.isSpacing, List.all_eq_true, Bool.and_eq_true] at hspacing
      simp only [Indenter.directives, List.all_map, List.all_eq_true, Function.comp_apply]
      exact fun line hline => hsmall (hspacing line hline).2
    · simp only [isPlainText, Bool.and_eq_true, Bool.not_eq_true', List.contains_eq_mem,
        decide_eq_false_iff_not] at hplain
      rw [Indenter.directives, Text.split_of_notMem hplain.1, List.map_singleton,
        Indenter.directive_of_notMem hplain.2]
      rfl
  by_cases hafter : key = "after"
  · subst hafter
    exact (allTexts_valueFor hf.plain (by simp) ancestry type).imp_right fun h =>
      h.imp fun _ hs => ⟨hs.1, hfits _ (.inr hs.2)⟩
  · exact (allTexts_valueFor hf.spacing (by simpa using ⟨hafter, hkey⟩) ancestry type).imp_right
      fun h => h.imp fun _ hs => ⟨hs.1, hfits _ (.inl hs.2)⟩

namespace Compiler

variable {c c' : Compiler}

/-- A compiler that indents by a text, with a format that fits it. -/
def IsRegular (c : Compiler) : Prop :=
  ∃ indenter, c.indenter? = some indenter ∧ c.format.Regular indenter.step

theorem isRegular_of_bundled (hf : c.format.IsBundled) : c.IsRegular := by
  obtain ⟨i, w, hi, hblank, _⟩ := indenter?_of_bundled hf
  exact ⟨i, hi, hf.tidy.regular hblank⟩

/-- What a program comes to can be laid out by a regular compiler. -/
theorem IsRegular.exists_run (h : c.IsRegular) (symbols : Symbols) (u : CompileUnit)
    (source : Option String) : ∃ indenter layout, c.indenter? = some indenter ∧
      ({ format := c.format, indenter } : Layout).run
        (c.outcome symbols u source none).2.trace.toList = .ok layout := by
  obtain ⟨indenter, hindenter, hregular⟩ := h
  have husual : ∀ i ∈ (c.outcome symbols u source none).2.trace.toList, i.isUsual = true :=
    generate_usual _ rfl
  obtain ⟨j, hj⟩ := hregular.exists_allIndented? husual
  refine ⟨indenter, ?_⟩
  have hrun := ({ format := c.format, indenter } : Layout).runFrom_indenter 0
    (c.outcome symbols u source none).2.trace.toList
  rw [hj] at hrun
  unfold Layout.run
  cases hlayout : ({ format := c.format, indenter } : Layout).runFrom 0
    (c.outcome symbols u source none).2.trace.toList with
  | error number =>
    rw [hlayout] at hrun
    cases hrun
  | ok layout => exact ⟨layout, hindenter, rfl⟩

/-! ### Two styles -/

/-- Compilers that differ at most in how they write code: in their format and indentation, in what
is written for messages and methods, and in whether there is a source map. -/
structure SameButStyle (c c' : Compiler) : Prop where
  objjScope : c'.options.objjScope = c.options.objjScope
  maxErrors : c'.options.maxErrors = c.options.maxErrors
  warnings : c'.options.warnings = c.options.warnings
  ignoreWarnings : c'.options.ignoreWarnings = c.options.ignoreWarnings
  predefined : c'.predefined = c.predefined

/-- Methods have names with one of two compilers only, with the first one or the second one. -/
def OnlyNames (c c' : Compiler) (first : Bool) : Prop :=
  c.options.methodNames = first ∧ c'.options.methodNames = !first

/-- The walk does the same in every style. Only if one of the styles has names for methods and the
other one has not, the walk with names may fail for want of one. -/
theorem SameButStyle.outcome (h : c.SameButStyle c') (symbols : Symbols) (u : CompileUnit)
    (source : Option String) :
    SameOutcome (fun e => e = .incomplete ∧ c.OnlyNames c' true)
      (fun e => e = .incomplete ∧ c.OnlyNames c' false) (GenState.Peers (c.OnlyNames c'))
      (c.outcome symbols u source none) (c'.outcome symbols u source none) := by
  have hmatch (program : Value) :
      Match (c.OnlyNames c') (generate program) (generate program) :=
    (peerLaw_runs _).scopes.generate trivial 0
  refine hmatch _ _ _ ⟨h.objjScope, rfl, h.predefined, ⟨rfl, rfl⟩, fun _ honly => honly, rfl,
    ?_, rfl, rfl, rfl, rfl⟩
  simp only [start, h.maxErrors, h.warnings, h.ignoreWarnings]

/-- Two outcomes with the same issues and symbols; both are errors if one is. -/
structure SameFindings (x x' : Except CompileError CompileResult × Symbols) : Prop where
  issues : x'.1.map (·.diagnostics) = x.1.map (·.diagnostics)
  success : x'.1.map (·.success) = x.1.map (·.success)
  symbols : x'.2 = x.2

variable {symbols : Symbols} {u : CompileUnit} {layout layout' : Layout}

theorem finish_cases (c : Compiler) (u : CompileUnit) (layout : Layout) (d : Diagnostics) :
    c.finish u layout d = .error .broken ∨ ∃ r, c.finish u layout d = .ok r ∧
    r.diagnostics = d := by
  unfold finish
  split
  · exact .inr ⟨_, rfl, rfl⟩
  · exact .inl rfl

theorem sameFindings_finish (found : Except CompileError Diagnostics)
    {x x' : Except CompileError CompileResult × Symbols} (hx : x.1 = found >>= c.finish u layout)
    (hx' : x'.1 = found >>= c'.finish u layout') (hsymbols : x'.2 = x.2) :
    x.1 = .error .broken ∨ x'.1 = .error .broken ∨ SameFindings x x' := by
  cases found with
  | error e => exact .inr (.inr ⟨by rw [hx, hx']; rfl, by rw [hx, hx']; rfl, hsymbols⟩)
  | ok d =>
    obtain hbroken | ⟨r, hr, hd⟩ := c.finish_cases u layout d
    · exact .inl (hx.trans hbroken)
    obtain hbroken | ⟨r', hr', hd'⟩ := c'.finish_cases u layout' d
    · exact .inr (.inl (hx'.trans hbroken))
    replace hx : x.1 = .ok r := hx.trans hr
    replace hx' : x'.1 = .ok r' := hx'.trans hr'
    refine .inr (.inr ⟨?_, ?_, hsymbols⟩)
    · rw [hx, hx', Except.map, Except.map, hd, hd']
    · rw [hx, hx', Except.map, Except.map, CompileResult.success, CompileResult.success, hd, hd']

/-- A unit has what its walk has found, unless the instructions cannot be carried out. -/
theorem compile_cases (c : Compiler) (symbols : Symbols) {source : Option String}
    (hsource : u.source? = some source) :
    (c.compile symbols u).1 = .error .broken ∨ ∃ layout, c.compile symbols u =
      (conclude (c.outcome symbols u source none).2.diagnostics
          (c.outcome symbols u source none).1 >>= c.finish u layout,
        (c.outcome symbols u source none).2.symbols) := by
  cases hindenter : c.indenter? with
  | none => exact .inl (by rw [compile_of_indenter?_eq_none hindenter])
  | some indenter =>
    rw [compile_eq hindenter hsource]
    split
    · exact .inr ⟨_, rfl⟩
    · exact .inl rfl

/-- A walk for want of a name ends without a result. -/
theorem conclude_of_failsBy {p : Prop} {d : Diagnostics} {outcome : Except Failure Unit}
    (h : FailsBy (fun e => e = .incomplete ∧ p) outcome) : conclude d outcome = .error .broken := by
  obtain ⟨e, rfl, rfl, _⟩ := h
  rfl

/-- However code is written, the issues, whether there are errors, and the symbols are the same,
unless one of the styles cannot be written at all. Regular formats can always be laid out: then the
symbols are the same in any case, and so is what has been found when the code is put together. Only
names for methods may be wanting, so a unit that can be written with them can be without. -/
theorem compile_restyled (h : c.SameButStyle c') (symbols : Symbols) (u : CompileUnit) :
    ((c.compile symbols u).1 = .error .broken ∨ (c'.compile symbols u).1 = .error .broken ∨
      SameFindings (c.compile symbols u) (c'.compile symbols u)) ∧
    (c.IsRegular → c'.IsRegular → (c'.options.methodNames = c.options.methodNames ∨
        c.options.methodNames = true ∧ (c.compile symbols u).1 ≠ .error .broken) →
      (c'.compile symbols u).2 = (c.compile symbols u).2 ∧
      ∃ found layout layout', (c.compile symbols u).1 = found >>= c.finish u layout ∧
        (c'.compile symbols u).1 = found >>= c'.finish u layout') := by
  cases hsource : u.source? with
  | none =>
    have hbroken (c : Compiler) : c.compile symbols u = (.error .broken, symbols) :=
      compile_of_source?_eq_none hsource
    refine ⟨.inl (by rw [hbroken]), fun hc hc' _ => ⟨by rw [hbroken, hbroken], ?_⟩⟩
    obtain ⟨-, layout, -⟩ := hc.exists_run symbols u none
    obtain ⟨-, layout', -⟩ := hc'.exists_run symbols u none
    exact ⟨.error .broken, layout, layout', by rw [hbroken]; rfl, by rw [hbroken]; rfl⟩
  | some source =>
    have hwalk := h.outcome symbols u source
    constructor
    · obtain hbroken | ⟨layout, hcompile⟩ := compile_cases c symbols hsource
      · exact .inl hbroken
      obtain hbroken | ⟨layout', hcompile'⟩ := compile_cases c' symbols hsource
      · exact .inr (.inl hbroken)
      rcases hwalk with hfails | hfails | ⟨houtcome, hpeers⟩
      · left
        rw [hcompile, conclude_of_failsBy hfails]
        rfl
      · right; left
        rw [hcompile', conclude_of_failsBy hfails]
        rfl
      · rw [houtcome, hpeers.diagnostics, hpeers.symbols] at hcompile'
        exact sameFindings_finish _ (congrArg Prod.fst hcompile) (congrArg Prod.fst hcompile')
          (by rw [hcompile, hcompile'])
    · intro hc hc' hnames
      obtain ⟨indenter, layout, hindenter, hrun⟩ := hc.exists_run symbols u source
      obtain ⟨indenter', layout', hindenter', hrun'⟩ := hc'.exists_run symbols u source
      have hcompile := compile_of_run hindenter hsource hrun
      have hcompile' := compile_of_run hindenter' hsource hrun'
      rcases hwalk with hfails | ⟨_, _, _, honly⟩ | ⟨houtcome, hpeers⟩
      · have hbroken : (c.compile symbols u).1 = .error .broken := by
          rw [hcompile, conclude_of_failsBy hfails]
          rfl
        obtain ⟨_, _, _, hc, hc'⟩ := hfails
        rcases hnames with hsame | ⟨_, hresult⟩
        · rw [hc, hc'] at hsame
          cases hsame
        · exact absurd hbroken hresult
      · rw [honly.1, honly.2] at hnames
        rcases hnames with hsame | ⟨hfirst, _⟩
        · cases hsame
        · cases hfirst
      · rw [houtcome, hpeers.diagnostics, hpeers.symbols] at hcompile'
        exact ⟨by rw [hcompile, hcompile'], _, layout, layout', congrArg Prod.fst hcompile,
          congrArg Prod.fst hcompile'⟩

/-- The unit of `function add() { total = [amount count]; }`. -/
def unknownReceiver : CompileUnit where
  program := .program [.function "add" []
    [.statement (.assign (.name "total") (.send (.name "amount") "count" []))]]
  file := .str "src/main.j"

def airy : Compiler where
  options := {}
  format := .bundled "cappuccino"
  predefined := {}

def terse : Compiler where
  options := { typeSignatures := false, inlineMsgSend := true, methodNames := false }
  format := .bundled "compact"
  predefined := {}

theorem compile_unknownReceiver_restyled : airy.SameButStyle terse ∧
    ∃ r r', (airy.compile {} unknownReceiver).1 = .ok r ∧
      (terse.compile {} unknownReceiver).1 = .ok r' ∧
      r.diagnostics.warningCount = 2 ∧ r'.diagnostics = r.diagnostics ∧
      (terse.compile {} unknownReceiver).2 = (airy.compile {} unknownReceiver).2 := by
  have hstyle : airy.SameButStyle terse := ⟨rfl, rfl, rfl, rfl, rfl⟩
  let count (r : CompileResult) : Nat := r.diagnostics.warningCount
  obtain ⟨r, hr, hcount⟩ := exists_ok_of_map (f := count) (b := 2)
    (x := (airy.compile {} unknownReceiver).1) (by decide +kernel)
  obtain ⟨r', hr', -⟩ := exists_ok_of_map (f := count) (b := 2)
    (x := (terse.compile {} unknownReceiver).1) (by decide +kernel)
  obtain ⟨hfindings, hregular⟩ := compile_restyled hstyle {} unknownReceiver
  obtain ⟨hsymbols, -⟩ := hregular (isRegular_of_bundled (.inl rfl))
    (isRegular_of_bundled (.inr rfl))
    (.inr ⟨rfl, fun hbroken => by rw [hr] at hbroken; cases hbroken⟩)
  refine ⟨hstyle, r, r', hr, hr', hcount, ?_, hsymbols⟩
  rcases hfindings with hbroken | hbroken | hsame
  · rw [hr] at hbroken
    cases hbroken
  · rw [hr'] at hbroken
    cases hbroken
  · have hissues := hsame.issues
    rw [hr, hr'] at hissues
    exact Except.ok.inj hissues

end Compiler

end ObjectiveJ
