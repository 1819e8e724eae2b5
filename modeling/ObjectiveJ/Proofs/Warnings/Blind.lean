import ObjectiveJ.Proofs.Law.Program
import ObjectiveJ.Proofs.Law.Relate
import ObjectiveJ.Proofs.Warnings.Silent

/-!
# Steps that do not depend on warnings

A step is *blind* if it does the same in states that are alike, whatever warnings these have, unless
it crashes in one of them. Blind steps are a law, so every program is compiled in the same way.
-/

namespace ObjectiveJ

open Gen

variable {g : Frame → Frame} {before : List (Nat × Issue)} {i : Issue}

/-- States that are alike, with issues that are numbered well. -/
structure GenState.Twins (s s' : GenState) : Prop where
  alike : s.Alike s'
  left : s.Numbers
  right : s'.Numbers

/-- There is no result. -/
abbrev Crashes {α : Type} (r : Except Failure α) : Prop := FailsBy (fun e => e.isCrash = true) r

/-- Related states are taken to related ones, with the same outcome, unless one of the runs
crashes. -/
abbrev Survives {α : Type} (P R : GenState → GenState → Prop) (m : Gen α) : Prop :=
  Relates (fun e => e.isCrash = true) (fun e => e.isCrash = true) P R m m

/-- A step that does not depend on warnings. -/
def Blind {α : Type} (m : Gen α) : Prop := Survives GenState.Twins GenState.Twins m

variable {α β : Type} {m : Gen α} {k : α → Gen β} {s s' t t' : GenState} (about : Value)
  (message : String)

theorem GenState.Twins.trans_left (h : s.Twins s') (ht : s.Alike t) (htn : t.Numbers) :
    t.Twins s' := ⟨ht.symm.trans h.alike, htn, h.right⟩

theorem GenState.Twins.trans_right (h : s.Twins s') (ht : s'.Alike t') (htn : t'.Numbers) :
    s.Twins t' := ⟨h.alike.trans ht, h.left, htn⟩

theorem run_of_silent (h : Silent m) (hs : s.Numbers) :
    Crashes (m.run.run s).1 ∨ ∃ a t, m.run.run s = (.ok a, t) ∧ s.Alike t ∧ t.Numbers := by
  have hm := h s hs
  unfold wp at hm
  rcases hrun : m.run.run s with ⟨e | a, t⟩
  · rw [hrun] at hm
    exact .inl ⟨e, rfl, hm⟩
  · rw [hrun] at hm
    exact .inr ⟨a, t, rfl, hm⟩

namespace Blind

theorem pure (a : α) : Blind (pure a : Gen α) := Relates.pure a

theorem throw (e : Failure) : Blind (throw e : Gen α) := Relates.throw e fun _ _ h => h

theorem bind (hm : Blind m) (hk : ∀ a, Blind (k a)) : Blind (m >>= k) :=
  Relates.bind (fun _ _ h => h) hm hk

theorem sequences : Sequences @Blind := ⟨pure, throw _, bind⟩

theorem look {k : GenState → Gen β} (hsame : ∀ s s', s.Agrees s' → k s' = k s)
    (hk : ∀ s, Blind (k s)) : Blind (get >>= k) :=
  Relates.look_same (fun s s' h => hsame s s' h.alike.agrees) hk

theorem look_same {k : GenState → Gen β} (hsame : ∀ s s', s.Concurs s' → k s' = k s)
    (hk : ∀ s, Blind (k s)) : Blind (get >>= k) := look (fun s s' h => hsame s s' h.concurs) hk

/-- From each state the step is a silent one, and then another one that is blind. -/
theorem aside {m k : Gen α}
    (hm : ∀ s, ∃ silent : Gen Unit, Silent silent ∧ m.run.run s = (silent >>= fun _ => k).run.run s)
    (hk : Blind k) : Blind m := by
  intro s s' h
  obtain ⟨silent, hsilent, hrun⟩ := hm s
  obtain ⟨silent', hsilent', hrun'⟩ := hm s'
  rw [hrun, hrun']
  rcases run_of_silent hsilent h.left with hcrash | ⟨_, t, ht, halike, hnumbers⟩
  · exact .inl hcrash.bind
  rcases run_of_silent hsilent' h.right with hcrash | ⟨_, t', ht', halike', hnumbers'⟩
  · exact .inr (.inl hcrash.bind)
  rw [run_bind_ok ht, run_bind_ok ht']
  exact hk t t' ((h.trans_left halike hnumbers).trans_right halike' hnumbers')

theorem of_silent {m : Gen Unit} (h : Silent m) : Blind m :=
  aside (fun _ => ⟨m, h, by simp⟩) (pure ())

theorem ofOption (o : Option α) : Blind (Gen.ofOption o) := by
  cases o with
  | none => exact throw _
  | some a => exact pure a

/-! ### Changes of the state -/

theorem changeGet {g : GenState → α × GenState}
    (hsame : ∀ s s', s.Agrees s' → (g s').1 = (g s).1 ∧ (g s).2.Agrees (g s').2)
    (hdiagnostics : ∀ s, (g s).2.diagnostics = s.diagnostics)
    (hwaits : ∀ s p, (g s).2.frames.Waits p → s.frames.Waits p) :
    Blind (modifyGet g : Gen α) := by
  have hnumbers (s : GenState) (hs : s.Numbers) : (g s).2.Numbers := by
    refine ⟨?_, fun p hp => ?_⟩
    · rw [hdiagnostics]
      exact hs.issues
    · rw [hdiagnostics]
      exact hs.waiting p (hwaits s p hp)
  intro s s' h
  obtain ⟨hresult, hagrees⟩ := hsame s s' h.alike.agrees
  refine .inr (.inr ⟨congrArg Except.ok hresult, ⟨hagrees, ?_⟩, hnumbers s h.left,
    hnumbers s' h.right⟩)
  change (g s).2.diagnostics.SameErrors (g s').2.diagnostics
  rw [hdiagnostics, hdiagnostics]
  exact h.alike.diagnostics

theorem change {g : GenState → GenState} (hsame : ∀ s s', s.Agrees s' → (g s).Agrees (g s'))
    (hdiagnostics : ∀ s, (g s).diagnostics = s.diagnostics)
    (hwaits : ∀ s p, (g s).frames.Waits p → s.frames.Waits p) :
    Blind (modify g : Gen Unit) :=
  changeGet (g := fun s => ((), g s)) (fun s s' h => ⟨rfl, hsame s s' h⟩) hdiagnostics hwaits

theorem modifyFrames {g : Frames → Frames}
    (hunparked : ∀ fs fs' : Frames, fs'.unparked = fs.unparked → (g fs').unparked = (g fs).unparked)
    (hwaits : ∀ fs p, (g fs).Waits p → fs.Waits p) : Blind (Gen.modifyFrames g) :=
  change (fun _ _ h => ⟨h.settings, h.symbols, hunparked _ _ h.unparked, h.ancestry, h.trace,
    h.buffers, h.methods⟩) (fun _ => rfl) fun _ _ h => hwaits _ _ h

end Blind

/-! ### Changes of frames -/

theorem Frames.unparked_copyIvarRefs (fs : Frames) (id : FrameId) :
    (fs.copyIvarRefs id).unparked = fs.unparked.copyIvarRefs id :=
  mapped_copyIvarRefs (r := fun refs => refs) (fun _ _ _ _ _ => mapped_modify fun _ => rfl)
    fun f => by simp [Frame.handed?, Frame.unparked, Function.comp_def]

namespace Blind

theorem modifyFrame {id : FrameId} (hg : ∀ f, (g f).unparked = g f.unparked)
    (hparked : ∀ f, (g f).parked = f.parked) : Blind (Gen.modifyFrames (·.modify id g)) :=
  modifyFrames (fun _ _ h => Frames.modify_congr h hg) fun _ _ h => h.of_same hparked

theorem setContext (id : FrameId) (g : Context → Context) : Blind (Gen.setContext id g) :=
  modifyFrame (fun _ => rfl) fun _ => rfl

theorem newFrame {f : Frame} (hf : f.parked = []) : Blind (Gen.newFrame f) := by
  refine changeGet (fun s s' h => ?_) (fun _ => rfl) fun s p => Frames.waits_new hf
  obtain ⟨hid, hframes⟩ := Frames.new_congr h.unparked f
  exact ⟨hid, { h with unparked := hframes }⟩

theorem takeTemp (id : FrameId) : Blind (Message.takeTemp id) := by
  refine changeGet (fun s s' h => ?_) (fun _ => rfl) fun s p hp => hp.of_same fun _ => rfl
  obtain ⟨hlevel, hframes⟩ :=
    Frames.takeTemp_congr h.unparked (fun _ => rfl) (fun _ _ => rfl) id
  exact ⟨congrArg tempName hlevel, { h with unparked := hframes }⟩

theorem dropTemp (id : FrameId) : Blind (Message.dropTemp id) := by
  refine modifyFrames (fun fs fs' h => ?_) fun fs p hp => hp.of_same fun _ => rfl
  rw [Frames.varFrame_congr h fun _ => rfl]
  exact Frames.modify_congr h fun _ => rfl

end Blind

/-! ### Errors -/

/-- The same issue was reported last, or none was. -/
def Diagnostics.SameLast (d d' : Diagnostics) : Prop :=
  d.last = none ∧ d'.last = none ∨ ∃ before before' n n' i,
    d.issues = before ++ [(n, i)] ∧ d'.issues = before' ++ [(n', i)] ∧
    d.last = some n ∧ d'.last = some n' ∧ (∀ e ∈ before, e.1 < n) ∧ ∀ e ∈ before', e.1 < n'

/-- Twins in which the same error was reported last. -/
structure GenState.Ended (s s' : GenState) : Prop where
  twins : s.Twins s'
  last : s.diagnostics.SameLast s'.diagnostics

theorem Diagnostics.record_error (d : Diagnostics) (hi : i.isWarning = false) :
    d.record i = match i.key? with
      | none => (.unkeyed, { d with last := none })
      | some key => if d.seen.contains key then (.dropped, { d with last := none })
        else (.as d.count, d.added i key) := by
  simp only [record, hi, Bool.false_and, Bool.false_eq_true, if_false]
  rfl

theorem Diagnostics.SameErrors.added_both {d d' : Diagnostics} (h : d.SameErrors d') (i : Issue)
    (key : IssueKey) : (d.added i key).SameErrors (d'.added i key) where
  lines := h.lines
  maxErrors := h.maxErrors
  errors := by
    have herrors := h.errors
    simp only [Diagnostics.errors, Diagnostics.list] at herrors
    simp only [Diagnostics.errors, Diagnostics.list, Diagnostics.added, List.map_append,
      List.filter_append, herrors]
    rfl
  seen other hother := by
    simp only [Diagnostics.added, List.contains_cons, h.seen other hother]

theorem GenState.Agrees.diagnose (h : s.Agrees s') (d d' : Diagnostics) :
    { s with diagnostics := d }.Agrees { s' with diagnostics := d' } :=
  ⟨h.settings, h.symbols, h.unparked, h.ancestry, h.trace, h.buffers, h.methods⟩

theorem run_report_error (s : GenState) : (report .error about message).run.run s =
    match s.diagnostics.make? .error about.anchor (.str message) with
    | none => (.error .incomplete, s)
    | some i => (match s.diagnostics.record i with
      | (recorded, d) => do
        modify fun s => { s with diagnostics := d }
        match recorded with
        | .as id => return some id
        | .dropped => return none
        | .unkeyed => incomplete : Gen (Option Nat)).run.run s := by
  unfold Gen.report
  rw [run_bind]
  change StateT.run (ExceptT.run (Gen.ofOption _ >>= _)) s = _
  cases s.diagnostics.make? .error about.anchor (.str message) <;> rfl

theorem report_error (h : s.Twins s') :
    Crashes ((report .error about message).run.run s).1 ∨
      ∃ r r' t t', (report .error about message).run.run s = (.ok r, t) ∧
        (report .error about message).run.run s' = (.ok r', t') ∧ r'.isSome = r.isSome ∧
        t.Ended t' := by
  have hmake := h.alike.diagnostics.make? .error about.anchor (.str message)
  rw [run_report_error, run_report_error, hmake]
  cases hi : s.diagnostics.make? .error about.anchor (.str message) with
  | none => exact .inl ⟨_, rfl, rfl⟩
  | some i =>
    have hwarning : i.isWarning = false := by
      obtain ⟨line, _, h⟩ := Option.bind_eq_some_iff.1 hi
      cases h
      rfl
    have hseverity : i.severity = .error := by
      obtain ⟨line, _, h⟩ := Option.bind_eq_some_iff.1 hi
      cases h
      rfl
    simp only [Diagnostics.record_error _ hwarning]
    cases hkey : i.key? with
    | none => exact .inl ⟨_, rfl, rfl⟩
    | some key =>
      have hseen := h.alike.diagnostics.seen key ((Issue.key?_severity hkey).trans hseverity)
      simp only [hseen]
      cases s.diagnostics.seen.contains key with
      | true =>
        have hdropped : ({ s.diagnostics with last := none } : Diagnostics).SameErrors
            { s'.diagnostics with last := none } := { h.alike.diagnostics with }
        exact .inr ⟨none, none, _, _, rfl, rfl, rfl, ⟨⟨h.alike.agrees.diagnose _ _, hdropped⟩,
          h.left.diagnose rfl rfl, h.right.diagnose rfl rfl⟩, .inl ⟨rfl, rfl⟩⟩
      | false =>
        exact .inr ⟨some _, some _, _, _, rfl, rfl, rfl, ⟨⟨h.alike.agrees.diagnose _ _,
          h.alike.diagnostics.added_both i key⟩, h.left.added i key, h.right.added i key⟩,
          .inr ⟨s.diagnostics.issues, s'.diagnostics.issues, _, _, i, rfl, rfl, rfl, rfl,
            h.left.issues, h.right.issues⟩⟩

theorem GenState.Ended.toTwins (s s' : GenState) (h : s.Ended s') : s.Twins s' := h.twins

theorem limit_relates : Survives GenState.Ended GenState.Ended (do
    let s ← get
    if ← ofOption s.diagnostics.isOverLimit? then fatal s.diagnostics.tooManyErrors :
      Gen Unit) := by
  refine Relates.look_same (fun s s' h => ?_) fun s => ?_
  · have hsame := h.twins.alike.diagnostics
    simp only [hsame.isOverLimit?, Diagnostics.tooManyErrors, hsame.maxErrors]
  · cases s.diagnostics.isOverLimit? with
    | none => exact .throw _ fun _ _ h => h
    | some exceeded =>
      cases exceeded with
      | true => exact .throw _ fun _ _ h => h
      | false => exact .pure ()

theorem error_relates :
    Survives GenState.Twins GenState.Ended (error about message) := by
  intro s s' h
  have herror : error about message = (report .error about message >>= fun r =>
      if r.isSome then do
        let s ← get
        if ← ofOption s.diagnostics.isOverLimit? then fatal s.diagnostics.tooManyErrors
      else pure ()) := rfl
  rcases report_error about message h with hcrash | ⟨r, r', t, t', hr, hr', hsome, ht⟩
  · exact .inl hcrash.bind
  · rw [herror, run_bind_ok hr, run_bind_ok hr', hsome]
    split
    · exact limit_relates t t' ht
    · exact .inr (.inr ⟨rfl, ht⟩)

theorem map_note {n : Nat} (hn : ∀ e ∈ before, e.1 < n) (i : Issue) (added : Note) :
    ((before ++ [(n, i)]).map fun e =>
      (e.1, if e.1 = n then { e.2 with notes := e.2.notes ++ [added] } else e.2)) =
      before ++ [(n, { i with notes := i.notes ++ [added] })] := by
  have hbefore : (before.map fun e =>
      (e.1, if e.1 = n then { e.2 with notes := e.2.notes ++ [added] } else e.2)) = before := by
    refine (List.map_congr_left fun e he => ?_).trans (List.map_id before)
    rw [if_neg (Nat.ne_of_lt (hn e he))]
    rfl
  rw [List.map_append, hbefore, List.map_singleton, if_pos rfl]

theorem Diagnostics.note?_of_last {d : Diagnostics} {n : Nat}
    (hissues : d.issues = before ++ [(n, i)]) (hlast : d.last = some n) (hn : ∀ e ∈ before, e.1 < n)
    (place message : Value) : d.note? place message = (d.makeNote? place message).map fun added =>
      { d with issues := before ++ [(n, { i with notes := i.notes ++ [added] })] } := by
  simp only [note?, hlast, hissues]
  cases d.makeNote? place message with
  | none => rfl
  | some added =>
    exact congrArg (fun issues => some { d with issues, last := some n }) (map_note hn i added)

theorem GenState.Numbers.noted (hs : s.Numbers) {n : Nat}
    (hissues : s.diagnostics.issues = before ++ [(n, i)]) (hn : ∀ e ∈ before, e.1 < n)
    (added : Note) :
    { s with diagnostics := { s.diagnostics with
      issues := before ++ [(n, { i with notes := i.notes ++ [added] })] } }.Numbers := by
  have hmap := hs.map
    (g := fun e => (e.1, if e.1 = n then { e.2 with notes := e.2.notes ++ [added] } else e.2))
    (fun _ => rfl) fun e => by
      dsimp only
      split <;> rfl
  rw [hissues, map_note hn] at hmap
  exact hmap

theorem note_relates :
    Survives GenState.Ended GenState.Ended (note about message) := by
  intro s s' h
  have hrun (s : GenState) : (note about message).run.run s =
      match s.diagnostics.note? about.anchor (.str message) with
      | none => (.error .incomplete, s)
      | some d => (.ok (), { s with diagnostics := d }) := by
    unfold Gen.note
    rw [run_bind]
    change StateT.run (ExceptT.run (Gen.ofOption _ >>= _)) s = _
    cases s.diagnostics.note? about.anchor (.str message) with
    | none => rfl
    | some d => rfl
  rw [hrun, hrun]
  rcases h.last with ⟨hlast, hlast'⟩ | ⟨before, before', n, n', i, hissues, hissues', hlast, hlast',
    hn, hn'⟩
  · simp only [Diagnostics.note?, hlast, hlast']
    exact .inr (.inr ⟨rfl, h⟩)
  · have hmake : s'.diagnostics.makeNote? about.anchor (.str message) =
        s.diagnostics.makeNote? about.anchor (.str message) := by
      simp only [Diagnostics.makeNote?, h.twins.alike.diagnostics.line?]
    rw [Diagnostics.note?_of_last hissues hlast hn, Diagnostics.note?_of_last hissues' hlast' hn',
      hmake]
    cases s.diagnostics.makeNote? about.anchor (.str message) with
    | none => exact .inl ⟨_, rfl, rfl⟩
    | some added =>
      obtain ⟨hlines, hmax, herrors, hseen⟩ := h.twins.alike.diagnostics
      simp only [Diagnostics.errors, Diagnostics.list, hissues, hissues', List.map_append,
        List.filter_append, List.map_singleton, List.append_cancel_right_eq] at herrors
      refine .inr (.inr ⟨rfl, ⟨⟨h.twins.alike.agrees.diagnose _ _, hlines, hmax, ?_, hseen⟩,
        h.twins.left.noted hissues hn added, h.twins.right.noted hissues' hn' added⟩,
        .inr ⟨before, before', n, n', _, rfl, rfl, hlast, hlast', hn, hn'⟩⟩)
      simp only [Diagnostics.errors, Diagnostics.list, List.map_append, List.filter_append, herrors,
        List.map_singleton, Option.map_some]

/-! ### Checks -/

theorem blind_records : Records @Blind where
  toSequences := Blind.sequences
  throw e _ := Blind.throw e
  look hsame := Blind.look fun s s' h => hsame s s' h.concurs
  warned hm := Blind.of_silent (hm silent_warns)
  error about message := Relates.mono GenState.Ended.toTwins (error_relates about message)
  errorNote about message earlier text := Relates.mono GenState.Ended.toTwins <|
    .bind (fun _ _ h => h) (error_relates about message) fun _ => note_relates earlier text
  fatalAt location cause _ := by
    refine Relates.look_same (fun s s' h => ?_) fun s =>
      Blind.bind (Blind.ofOption _) fun line => ?_
    · simp only [h.alike.diagnostics.line?]
    · dsimp only
      split <;> exact Blind.throw _
  declare _ _ _ := Blind.modifyFrame (fun _ => rfl) fun _ => rfl
  symbols g := Blind.changeGet (fun _ _ h => ⟨congrArg (fun symbols => (g symbols).1) h.symbols,
    h.settings, congrArg (fun symbols => (g symbols).2) h.symbols, h.unparked, h.ancestry, h.trace,
    h.buffers, h.methods⟩) (fun _ => rfl) fun _ _ h => h

namespace Blind

theorem retract (index : Nat) : Blind (Gen.retract index) :=
  change (fun _ _ h => ⟨h.settings, h.symbols, h.unparked, h.ancestry,
    by simp only [h.trace], h.buffers, h.methods⟩) (fun _ => rfl) fun _ _ h => h

theorem hiddenBy (frame : FrameId) (name : Value) : Blind (Check.hiddenBy frame name) :=
  blind_records.hiddenBy (fun hsame => look fun s s' h => hsame s s' h.concurs h.ivarRefs)
    (fun _ _ => modifyFrame (fun _ => rfl) fun _ => rfl)
    (fun _ _ => modifyFrame (fun _ => rfl) fun _ => rfl) retract frame name

/-! ### Output -/

theorem emit (i : Instr) : Blind (Gen.emit i) := by
  intro s s' h
  have hagrees := h.alike.agrees
  have hstop : (s'.settings.stop = some s'.trace.size) = (s.settings.stop = some s.trace.size) := by
    rw [hagrees.settings, hagrees.trace]
  change SameOutcome _ _ _ (if s.settings.stop = some s.trace.size then _ else _)
    (if s'.settings.stop = some s'.trace.size then _ else _)
  simp only [hstop]
  split
  · exact .inl ⟨_, rfl, rfl⟩
  · refine .inr (.inr ⟨rfl, ⟨⟨hagrees.settings, hagrees.symbols, hagrees.unparked, hagrees.ancestry,
      ?_, hagrees.buffers, hagrees.methods⟩, h.alike.diagnostics⟩,
      ⟨h.left.issues, h.left.waiting⟩, ⟨h.right.issues, h.right.waiting⟩⟩)
    exact congrArg (·.push i) hagrees.trace

theorem newBuffer : Blind Gen.newBuffer :=
  changeGet (fun _ _ h => ⟨h.buffers, h.settings, h.symbols, h.unparked, h.ancestry, h.trace,
    congrArg (· + 1) h.buffers, h.methods⟩) (fun _ => rfl) fun _ _ h => h

theorem setMethods (methods : Option MethodBuffers) :
    Blind (modify fun s => { s with methods } : Gen Unit) :=
  change (fun _ _ h => ⟨h.settings, h.symbols, h.unparked, h.ancestry, h.trace, h.buffers, rfl⟩)
    (fun _ => rfl) fun _ _ h => h

theorem setAncestry (g : Ancestry → Ancestry) :
    Blind (modify fun s => { s with ancestry := g s.ancestry } : Gen Unit) :=
  change (fun _ _ h => ⟨h.settings, h.symbols, h.unparked, congrArg g h.ancestry,
    h.trace, h.buffers, h.methods⟩) (fun _ => rfl) fun _ _ h => h

end Blind

/-! ### Programs -/

/-- Steps that do not depend on warnings, as a law. -/
def blindLaw : Law where
  Allows _ {_} m := Blind m
  Admits _ := True
  admits_part _ _ := trivial
  admits_item _ _ _ := trivial
  judges _ := blind_records.toJudges
  hiddenBy _ _ := Blind.hiddenBy _ _
  emit _ _ _ := Blind.emit _
  shifted sh _ _ hm := Blind.sequences.shifted Blind.look_same sh (fun _ => Blind.emit _)
    (fun _ => Blind.emit _) hm
  style hsame hk := Blind.look (fun s s' hs => hsame s s' hs.concurs hs.settings) fun s =>
    (Blind.sequences.of_styled Blind.look_same (fun _ => Blind.emit _) (hk s s (.refl s))).1
  newBuffer _ := Blind.newBuffer
  setContext _ _ _ _ := Blind.setContext _ _
  assigning id v _ hm := Blind.sequences.assigning Blind.look_same Blind.setContext id v hm
  undeclare _ _ _ := Blind.modifyFrame (fun _ => rfl) fun _ => rfl
  selfAssigned _ _ := Blind.modifyFrame (fun _ => rfl) fun _ => rfl
  ivarReference _ _ _ _ _ := Blind.bind (Blind.look (fun _ _ hs => by rw [hs.trace]) fun _ =>
    Blind.bind (Blind.modifyFrame (fun _ => rfl) fun _ => rfl) fun _ => Blind.emit _)
      fun _ => Blind.emit _

theorem blindLaw_declares : blindLaw.Declares where
  setMethods _ _ := Blind.setMethods _
  newBody _ _ _ _ _ _ hparked hk :=
    Blind.bind (Blind.newFrame hparked) fun id => (hk id).allows fun h => h
  optional _ _ := Blind.modifyFrame (fun _ => rfl) fun _ => rfl
  records _ := blind_records

theorem blindLaw_opens : blindLaw.Opens where
  settle _ _ := Blind.of_silent (Silent.settle _)
  copyIvarRefs _ _ := Blind.modifyFrames
    (fun fs fs' h => by rw [Frames.unparked_copyIvarRefs, Frames.unparked_copyIvarRefs, h])
    fun _ _ h => Frames.waits_copyIvarRefs h
  recordMethod _ _ _ _ _ _ := blind_records.methods.recordMethod _ _ _ _ _

theorem blindLaw_runs : blindLaw.Runs where
  anyFrame h := h
  instr _ _ _ := Blind.emit _
  within _ hbody := Blind.bind (Blind.setAncestry _) fun _ => Blind.bind hbody fun _ =>
    Blind.setAncestry _
  newFrame _ _ _ _ _ hparked := Blind.newFrame hparked
  takeTemp _ id := Blind.takeTemp id
  dropTemp _ id := Blind.dropTemp id
  unpark _ _ := Blind.modifyFrames
    (fun fs fs' h => by rw [Frames.unparked_setParked, Frames.unparked_setParked, h])
    fun _ _ h => h.of_setParked.resolve_right List.not_mem_nil
  declares := blindLaw_declares.declarations
  opens := blindLaw_opens

end ObjectiveJ
