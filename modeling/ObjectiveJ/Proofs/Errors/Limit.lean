import ObjectiveJ.Proofs.Law.Part
import ObjectiveJ.Proofs.Warnings.Output

/-!
# The limit for errors

A unit ends with the first error that is one too many. Until then there are no more errors than the
limit allows, so at the end of a walk there are at most `n`, or `n + 1` if the walk has failed
because of the limit (`Limited`). A fatal error is one more issue of the result, whether it is about
the limit or about something else.

Of all steps only `Gen.error` makes errors more. All others are *mild*: they add no errors, and do
not fail because of the limit.
-/

namespace ObjectiveJ

open Gen

/-! ### Mild steps -/

namespace Diagnostics

/-- Diagnostics with the same limit and no more errors. -/
structure Milder (d d' : Diagnostics) : Prop where
  maxErrors : d'.maxErrors = d.maxErrors
  errorCount : d'.errorCount ≤ d.errorCount

namespace Milder

variable {d d' d'' : Diagnostics}

theorem refl (d : Diagnostics) : d.Milder d := ⟨rfl, Nat.le_refl _⟩

theorem trans (h : d.Milder d') (h' : d'.Milder d'') : d.Milder d'' :=
  ⟨h'.maxErrors.trans h.maxErrors, Nat.le_trans h'.errorCount h.errorCount⟩

theorem withdraw (d : Diagnostics) (id : Nat) : d.Milder (d.withdraw id) := by
  unfold Diagnostics.withdraw
  split
  · exact .refl d
  · refine ⟨rfl, ?_⟩
    simp only [Diagnostics.errorCount, Issue.errors, list]
    exact (List.filter_sublist.map _).countP_le

end Milder

theorem errorCount_added (d : Diagnostics) (i : Issue) (key : IssueKey) :
    (d.added i key).errorCount = d.errorCount + if i.isError then 1 else 0 := by
  simp [errorCount, Issue.errors, list, added, List.countP_append, List.countP_singleton]

theorem milder_note? {d d' : Diagnostics} {place message : Value}
    (h : d.note? place message = some d') : d.Milder d' := by
  unfold note? at h
  split at h
  · cases h
    exact .refl d
  · obtain ⟨n, -, h⟩ := Option.bind_eq_some_iff.1 h
    cases h
    refine ⟨rfl, Nat.le_of_eq ?_⟩
    simp only [errorCount, Issue.errors, list, List.map_map, List.countP_map]
    refine List.countP_congr fun e _ => ?_
    simp only [Function.comp_apply]
    split <;> rfl

theorem milder_settleAll (symbols : Symbols) (frame : FrameId) (fs : Frames) (d : Diagnostics)
    (parked : List Parked) : d.Milder (settleAll symbols frame fs d parked).2.1 := by
  induction parked generalizing fs d with
  | nil => exact .refl d
  | cons p rest ih =>
    rw [settleAll]
    split
    · exact ih fs d
    split
    · exact .refl d
    split
    · exact (Milder.withdraw d p.issue).trans (ih _ _)
    · exact ih fs d

end Diagnostics

/-- An error that is recorded is counted. -/
theorem wp_report (severity : Severity) (about : Value) (message : String) (s : GenState) :
    wp (report severity about message)
      (fun recorded t => t.diagnostics.maxErrors = s.diagnostics.maxErrors ∧
        t.diagnostics.errorCount = s.diagnostics.errorCount +
          if recorded.isSome ∧ severity = .error then 1 else 0)
      (fun e t => e = .incomplete ∧ s.diagnostics.Milder t.diagnostics) s := by
  unfold Gen.report
  rw [wp_bind, wp_get]
  refine (wp_bind ..).2 (wp_ofOption (fun i hmake => ?_) fun _ => ⟨rfl, .refl _⟩)
  have hi : i.isError = (severity == .error) := by
    obtain ⟨line, _, h⟩ := Option.bind_eq_some_iff.1 hmake
    cases h
    cases severity <;> rfl
  rcases s.diagnostics.record_cases i with h | h | ⟨key, hkey, h⟩
  · rw [h]
    exact ⟨rfl, rfl⟩
  · rw [h]
    exact ⟨rfl, rfl, Nat.le_refl _⟩
  · rw [h]
    refine ⟨rfl, (s.diagnostics.errorCount_added i key).trans ?_⟩
    simp [hi]

/-- A step that adds no errors and does not fail because of the limit. -/
def Mild {α : Type} (m : Gen α) : Prop :=
  ∀ s, wp m (fun _ t => s.diagnostics.Milder t.diagnostics)
    (fun e t => s.diagnostics.Milder t.diagnostics ∧ e.isLimit = false) s

namespace Mild

variable {α β : Type} {m : Gen α} {k : α → Gen β} {e : Failure} (about : Value) (message : String)

theorem pure (a : α) : Mild (pure a) := fun _ => .refl _

theorem throw (he : e.isLimit = false) : Mild (throw e : Gen α) := fun _ => ⟨.refl _, he⟩

theorem bind (hm : Mild m) (hk : ∀ a, Mild (k a)) : Mild (m >>= k) := fun s =>
  (hm s).bind fun a t ht => (hk a t).mono (fun _ _ hu => ht.trans hu)
    fun _ _ hu => ⟨ht.trans hu.1, hu.2⟩

theorem look {k : GenState → Gen β} (hk : ∀ s, Mild (k s)) : Mild (get >>= k) :=
  fun s => (wp_bind ..).2 (hk s s)

theorem modifyGet {g : GenState → α × GenState}
    (hg : ∀ s, (g s).2.diagnostics = s.diagnostics) : Mild (modifyGet g : Gen α) := fun s =>
  have hsame : s.diagnostics.Milder (g s).2.diagnostics := hg s ▸ .refl _
  hsame

theorem modifyFrames (g : Frames → Frames) : Mild (Gen.modifyFrames g) := fun _ => .refl _

theorem looks : Looks @Mild where
  pure := pure
  incomplete := throw rfl
  bind := bind
  look _ := look

theorem report_warning :
    Mild (Gen.report .warning about message) := fun s =>
  (wp_report .warning about message s).mono
    (fun _ _ ⟨hmax, hcount⟩ => ⟨hmax, by simp [hcount]⟩)
    fun _ _ ⟨he, hmilder⟩ => ⟨hmilder, he ▸ rfl⟩

theorem warning : Mild (Gen.warning about message) :=
  looks.discard (report_warning about message)

theorem note : Mild (Gen.note about message) := by
  intro s
  unfold Gen.note
  rw [wp_bind, wp_get]
  refine (wp_bind ..).2 (wp_ofOption (fun d hd => ?_) fun _ => ⟨.refl _, rfl⟩)
  exact Diagnostics.milder_note? hd

theorem warns : Warns @Mild where
  toLooks := looks
  warning := warning
  explained _ _ _ _ hr := (warning _ _).bind fun _ => (hr looks).bind fun _ => note _ _
  park _ _ _ _ _ place _ := by
    refine bind (bind (report_warning _ _) fun issue => ?_) fun recorded => ?_
    · cases issue with
      | none => exact pure _
      | some issue => exact (modifyFrames _).bind fun _ => pure _
    · cases place with
      | none => exact pure _
      | some place =>
        dsimp only
        split
        · exact note _ _
        · exact pure _

theorem fatalAt (location : Option Location) {cause : Cause} (h : cause.isLimit = false) :
    Mild (Gen.fatalAt location cause : Gen α) := by
  refine look fun s => bind (looks.ofOption _) fun line => ?_
  dsimp only
  split
  · exact throw h
  · exact throw rfl

theorem emit (i : Instr) : Mild (Gen.emit i) := fun _ =>
  wp_instr i (.refl _) ⟨.refl _, rfl⟩

theorem settle (frame : FrameId) : Mild (Gen.settle frame) := fun s =>
  have hsettled := Diagnostics.milder_settleAll s.symbols frame s.frames s.diagnostics
    (s.frames.parked frame)
  wp_settle frame hsettled ⟨hsettled, rfl⟩

end Mild

/-! ### The limit -/

/-- There are no more errors than the limit allows. -/
structure Diagnostics.Within (limit : Json) (n : Nat) (d : Diagnostics) : Prop where
  maxErrors : d.maxErrors = limit
  errorCount : d.errorCount ≤ n

/-- What is left of a walk that fails: one error too many, if it fails because of the limit. -/
def Diagnostics.Ended (limit : Json) (n : Nat) (e : Failure) (d : Diagnostics) : Prop :=
  e.isLimit = false ∧ d.Within limit n ∨
    e = .fatal d.tooManyErrors ∧ d.maxErrors = limit ∧ d.errorCount = n + 1

/-- A step that stays within the limit, or fails with the first error beyond it. -/
def Limited (limit : Json) (n : Nat) {α : Type} (m : Gen α) : Prop :=
  ∀ s, s.diagnostics.Within limit n → wp m (fun _ t => t.diagnostics.Within limit n)
    (fun e t => t.diagnostics.Ended limit n e) s

theorem Diagnostics.Within.milder {limit : Json} {n : Nat} {d d' : Diagnostics}
    (h : d.Within limit n) (hd : d.Milder d') : d'.Within limit n :=
  ⟨hd.maxErrors.trans h.maxErrors, Nat.le_trans hd.errorCount h.errorCount⟩

namespace Limited

variable {α β : Type} {limit : Json} {n : Nat} {m : Gen α} {k : α → Gen β}

theorem of_mild (hm : Mild m) : Limited limit n m := fun s hs =>
  (hm s).mono (fun _ _ ht => hs.milder ht) fun _ _ ht => .inl ⟨ht.2, hs.milder ht.1⟩

theorem bind (hm : Limited limit n m) (hk : ∀ a, Limited limit n (k a)) :
    Limited limit n (m >>= k) := fun s hs =>
  (hm s hs).bind fun a t ht => hk a t ht

theorem look {k : GenState → Gen β} (hk : ∀ s, Limited limit n (k s)) :
    Limited limit n (get >>= k) := fun s hs => (wp_bind ..).2 (hk s s hs)

theorem error (hlimit : limit.whole? = some (n : Int)) (hn : 0 < n) (about : Value)
    (message : String) : Limited limit n (Gen.error about message) := by
  intro s hs
  unfold Gen.error
  refine (wp_bind ..).2 ((wp_report .error about message s).mono (fun recorded t ht => ?_)
    fun e t ht => .inl ⟨ht.1 ▸ rfl, hs.milder ht.2⟩)
  obtain ⟨hmax, hcount⟩ := ht
  have htmax : t.diagnostics.maxErrors = limit := hmax.trans hs.maxErrors
  split
  · rename_i hrecorded
    simp only [hrecorded, and_self, if_true] at hcount
    have hover : t.diagnostics.isOverLimit? = some (decide (n < t.diagnostics.errorCount)) := by
      have hfloat : ∀ x, limit ≠ .float x := fun x hx => by rw [hx] at hlimit; cases hlimit
      unfold Diagnostics.isOverLimit?
      rw [htmax]
      split
      · exact absurd rfl (hfloat _)
      · simp [hlimit, hn]
    rw [wp_bind, wp_get]
    refine (wp_bind ..).2 ?_
    rw [hover]
    change wp (if decide (n < t.diagnostics.errorCount) = true then fatal
      t.diagnostics.tooManyErrors else Pure.pure ()) _ _ t
    have hle := hs.errorCount
    split
    · rename_i hlt
      exact .inr ⟨rfl, htmax, by simp only [decide_eq_true_eq] at hlt; omega⟩
    · rename_i hlt
      exact ⟨htmax, by simp only [decide_eq_true_eq] at hlt; omega⟩
  · rename_i hrecorded
    simp only [hrecorded, false_and, if_false, Bool.false_eq_true] at hcount
    exact ⟨htmax, hcount ▸ hs.errorCount⟩

section

variable (hlimit : limit.whole? = some (n : Int)) (hn : 0 < n)

include hlimit hn

theorem judges : Judges fun {_} m => Limited limit n m where
  pure _ := of_mild (.pure _)
  incomplete := of_mild (.throw rfl)
  throw _ he := of_mild (.throw he)
  bind := bind
  look _ := look
  warned hm := of_mild (hm Mild.warns)
  error := error hlimit hn
  errorNote _ _ _ _ := (error hlimit hn _ _).bind fun _ => of_mild (.note _ _)
  fatalAt _ _ h := of_mild (.fatalAt _ h)
  declare _ _ _ := of_mild (.modifyFrames _)

theorem wide : Wide (fun {_} m => Limited limit n m) fun _ _ => True where
  toJudges := judges hlimit hn
  lookAt := look
  instr _ := of_mild (.emit _)
  change hg := of_mild (.modifyGet fun s => (hg s).2)
  within _ hbody := (of_mild (.modifyGet fun _ => rfl)).bind fun _ =>
    hbody.bind fun _ => of_mild (.modifyGet fun _ => rfl)
  settle frame := of_mild (.settle frame)

end

end Limited

/-! ### Programs -/

namespace Compiler

variable {c : Compiler} {symbols : Symbols} {u : CompileUnit}

/-- The walk through the program of a unit fails with a fatal error. -/
def Aborts (c : Compiler) (symbols : Symbols) (u : CompileUnit) (f : Fatal) : Prop :=
  ∃ source, u.source? = some source ∧ (c.outcome symbols u source none).1 = .error (.fatal f)

/-- What the walk through a unit leaves of the limit. -/
theorem outcome_limited {n : Nat} (hlimit : c.options.maxErrors.whole? = some (n : Int))
    (hn : 0 < n) (symbols : Symbols) (u : CompileUnit) (source : Option String) :
    ((c.outcome symbols u source none).1 = .ok () →
      (c.outcome symbols u source none).2.diagnostics.Within c.options.maxErrors n) ∧
    ∀ e, (c.outcome symbols u source none).1 = .error e →
      (c.outcome symbols u source none).2.diagnostics.Ended c.options.maxErrors n e := by
  have hgenerate (program : Value) : Limited c.options.maxErrors n (generate program) :=
    ((Limited.wide hlimit hn).runs (Q := fun _ => True) fun _ _ _ => trivial).scopes.generate
      (fun _ _ => trivial) 0
  let start := c.start { symbols with nodes := (u.program.numbered.run symbols.nodes).2 } source
  have hwp := hgenerate (u.program.numbered.run symbols.nodes).1
    { start with settings := { start.settings with stop := none } } ⟨rfl, Nat.zero_le _⟩
  exact ⟨fun h => wp.ok hwp (Prod.ext h rfl), fun e h => wp.error hwp (Prod.ext h rfl)⟩

theorem conclude_fatal {d d' : Diagnostics} {f : Fatal}
    (h : conclude d (.error (.fatal f)) = .ok d') :
    ∃ i, d'.errors = d.errors ++ [i] ∧ d'.list.getLast? = some i ∧ i.severity = .error ∧
      i.message = f.cause.message ∧ i.place = .ofLocation f.location := by
  unfold conclude at h
  dsimp only at h
  split at h
  · rename_i i hi
    cases h
    obtain ⟨hseverity, hmessage, hplace⟩ := Diagnostics.ofFatal?_eq hi
    exact ⟨i, Diagnostics.errors_addFatal hseverity,
      by simp [Diagnostics.list, Diagnostics.addFatal], hseverity, hmessage, hplace⟩
  · cases h

/-- Of the errors of a unit there are at most two more than the limit. There are that many if and
only if the unit was ended by the limit, and then the last issue says so. If there is one more than
the limit, the last issue is another fatal error. -/
theorem compile_errors_limited {n : Nat} (hlimit : c.options.maxErrors.whole? = some (n : Int))
    (hn : 0 < n) {r : CompileResult} (h : (c.compile symbols u).1 = .ok r) :
    r.diagnostics.errors.length ≤ n + 2 ∧
    (r.diagnostics.errors.length = n + 2 ↔ ∃ f, c.Aborts symbols u f ∧ f.cause.isLimit = true) ∧
    (r.diagnostics.errors.length = n + 2 → ∃ i, r.diagnostics.list.getLast? = some i ∧
      i.severity = .error ∧
      i.message = .str ("too many errors (>" ++ c.options.maxErrors.display ++ ")")) ∧
    (r.diagnostics.errors.length = n + 1 → ∃ f i, c.Aborts symbols u f ∧ f.cause.isLimit = false ∧
      r.diagnostics.list.getLast? = some i ∧ i.severity = .error ∧ i.message = f.cause.message ∧
      i.place = .ofLocation f.location) := by
  obtain ⟨-, -, source, -, hsource, -, -, hconclude, -⟩ := run_of_compile h
  obtain ⟨hwithin, hended⟩ := outcome_limited hlimit hn symbols u source
  have haborts (f : Fatal) : c.Aborts symbols u f ↔
      (c.outcome symbols u source none).1 = .error (.fatal f) := by
    simp [Aborts, hsource]
  have hlength (d : Diagnostics) : d.errors.length = d.errorCount :=
    List.countP_eq_length_filter.symm
  rcases houtcome : (c.outcome symbols u source none).1 with e | ⟨⟩
  · rw [houtcome] at hconclude
    simp only [haborts, houtcome]
    cases e with
    | fatal f =>
      obtain ⟨i, herrors, hlast, hseverity, hmessage, hplace⟩ := conclude_fatal hconclude
      have hcount : r.diagnostics.errors.length =
          (c.outcome symbols u source none).2.diagnostics.errorCount + 1 := by
        rw [herrors, List.length_append, hlength]
        rfl
      rcases hended _ houtcome with ⟨hother, -, hle⟩ | ⟨hfatal, hmax, heq⟩
      · -- some other fatal error
        have hother : f.cause.isLimit = false := hother
        refine ⟨by omega, ⟨fun h => by omega, ?_⟩, fun h => by omega, fun _ => ?_⟩
        · rintro ⟨g, hg, hlimit⟩
          obtain rfl := Failure.fatal.inj (Except.error.inj hg)
          rw [hother] at hlimit
          cases hlimit
        · exact ⟨f, i, rfl, hother, hlast, hseverity, hmessage, hplace⟩
      · cases hfatal
        refine ⟨by omega, ⟨fun _ => ⟨_, rfl, rfl⟩, fun _ => by omega⟩, fun _ => ?_,
          fun h => by omega⟩
        exact ⟨i, hlast, hseverity, hmax ▸ hmessage⟩
    | uncompilable message => cases hconclude
    | arity e => cases hconclude
    | incomplete => cases hconclude
  · rw [houtcome] at hconclude
    obtain hd := Except.ok.inj hconclude
    have hle := (hwithin houtcome).errorCount
    have hcount := hlength r.diagnostics
    rw [← hd] at hcount
    simp only [haborts, houtcome]
    rw [← hd]
    refine ⟨by omega, ⟨fun h => by omega, ?_⟩, fun h => by omega, fun h => by omega⟩
    rintro ⟨f, hf, -⟩
    cases hf

/-- The unit of `@class C, D; C = 1; D = 1;`. -/
def assignedClasses : CompileUnit where
  program :=
    let assignment (text : String) : Value :=
      .statement (.assign (.name text) (.node .thisExpression []))
    .program [.node .classStatement [("ids", .list [.name "C", .name "D"])], assignment "C",
      assignment "D"]

/-- A compiler that ends a unit with the second error. -/
def strict : Compiler where
  options := { maxErrors := .int 1 }
  format := {}
  predefined := {}

theorem compile_assignedClasses_limited : ∃ r, (strict.compile {} assignedClasses).1 = .ok r ∧
    r.diagnostics.errors.length = 3 ∧
    (∃ f, strict.Aborts {} assignedClasses f ∧ f.cause.isLimit = true) ∧
    ∃ i, r.diagnostics.list.getLast? = some i ∧ i.message = .str "too many errors (>1)" := by
  obtain ⟨r, hr, hlength⟩ := exists_ok_of_map (f := (·.diagnostics.errors.length)) (b := 1 + 2)
    (x := (strict.compile {} assignedClasses).1) (by decide +kernel)
  obtain ⟨-, hiff, hlast, -⟩ := compile_errors_limited (n := 1) rfl (by decide) hr
  obtain ⟨i, hi, -, hmessage⟩ := hlast hlength
  exact ⟨r, hr, hlength, hiff.1 hlength, i, hi, hmessage⟩

end Compiler

end ObjectiveJ
