import ObjectiveJ.Proofs.Law.Check
import ObjectiveJ.Proofs.Run

/-!
# Steps that only warn

Two states are *alike* if they agree and have the same errors. A *silent* step leads to a state that
is alike: it may report, park or withdraw warnings, and it may attach a note to a warning that it
has reported.
-/

namespace ObjectiveJ

open Gen

variable {d : Diagnostics} {id : FrameId} {fs : Frames} {p : Parked} {i : Issue}

/-- A failure after which there is no result. -/
def Failure.isCrash : Failure → Bool
  | .fatal _ => false
  | _ => true

/-- A warning waits in one of the frames. -/
def Frames.Waits (fs : Frames) (p : Parked) : Prop := ∃ id f, fs.frame? id = some f ∧ p ∈ f.parked

/-- Issues have different numbers, and those that wait are no errors. -/
structure GenState.Numbers (s : GenState) : Prop where
  issues : ∀ e ∈ s.diagnostics.issues, e.1 < s.diagnostics.count
  waiting : ∀ p, s.frames.Waits p → p.issue < s.diagnostics.count ∧
    ∀ e ∈ s.diagnostics.issues, e.1 = p.issue → e.2.isError = false

namespace Diagnostics

def errors (d : Diagnostics) : List Issue := d.list.filter Issue.isError

structure SameErrors (d d' : Diagnostics) : Prop where
  lines : d'.lines = d.lines
  maxErrors : d'.maxErrors = d.maxErrors
  errors : d'.errors = d.errors
  seen : ∀ key, key.severity = .error → d'.seen.contains key = d.seen.contains key

namespace SameErrors

variable {d d' d'' : Diagnostics}

theorem refl (d : Diagnostics) : d.SameErrors d := ⟨rfl, rfl, rfl, fun _ _ => rfl⟩

theorem symm (h : d.SameErrors d') : d'.SameErrors d :=
  ⟨h.lines.symm, h.maxErrors.symm, h.errors.symm, fun key hkey => (h.seen key hkey).symm⟩

theorem trans (h : d.SameErrors d') (h' : d'.SameErrors d'') : d.SameErrors d'' :=
  ⟨h'.lines.trans h.lines, h'.maxErrors.trans h.maxErrors, h'.errors.trans h.errors,
    fun key hkey => (h'.seen key hkey).trans (h.seen key hkey)⟩

theorem line? (h : d.SameErrors d') (place : Value) : d'.line? place = d.line? place := by
  simp only [Diagnostics.line?, h.lines]

theorem make? (h : d.SameErrors d') (severity : Severity) (place message : Value) :
    d'.make? severity place message = d.make? severity place message := by
  simp only [Diagnostics.make?, h.line?]

theorem isOverLimit? (h : d.SameErrors d') : d'.isOverLimit? = d.isOverLimit? := by
  have hcount : d'.errorCount = d.errorCount := by
    simp only [errorCount, Issue.errors, List.countP_eq_length_filter]
    exact congrArg List.length h.errors
  simp only [Diagnostics.isOverLimit?, h.maxErrors, hcount]

end SameErrors

end Diagnostics

/-- States that agree and have the same errors. -/
structure GenState.Alike (s s' : GenState) : Prop where
  agrees : s.Agrees s'
  diagnostics : s.diagnostics.SameErrors s'.diagnostics

namespace GenState

variable {s t u : GenState}

theorem Agrees.symm (h : s.Agrees t) : t.Agrees s :=
  ⟨h.settings.symm, h.symbols.symm, h.unparked.symm, h.ancestry.symm, h.trace.symm,
    h.buffers.symm, h.methods.symm⟩

theorem Agrees.trans (h : s.Agrees t) (h' : t.Agrees u) : s.Agrees u :=
  ⟨h'.settings.trans h.settings, h'.symbols.trans h.symbols, h'.unparked.trans h.unparked,
    h'.ancestry.trans h.ancestry, h'.trace.trans h.trace, h'.buffers.trans h.buffers,
    h'.methods.trans h.methods⟩

theorem Alike.refl (s : GenState) : s.Alike s := ⟨.refl s, .refl _⟩

theorem Alike.symm (h : s.Alike t) : t.Alike s := ⟨h.agrees.symm, h.diagnostics.symm⟩

theorem Alike.trans (h : s.Alike t) (h' : t.Alike u) : s.Alike u :=
  ⟨h.agrees.trans h'.agrees, h.diagnostics.trans h'.diagnostics⟩

end GenState

/-- A step that only warns. -/
def Silent {α : Type} (m : Gen α) : Prop :=
  ∀ s, s.Numbers → wp m (fun _ t => s.Alike t ∧ t.Numbers) (fun e _ => e.isCrash = true) s

variable {α β : Type} {m : Gen α} {k : α → Gen β} {s : GenState}

theorem wp_of_reads (h : Reads m) (s : GenState) :
    wp m (fun _ t => t = s) (fun e _ => e.isCrash = true) s := by
  have hlooks : Looks fun {_} m => ∀ s, wp m (fun _ t => t = s) (fun e _ => e.isCrash = true) s := {
    pure := fun _ _ => rfl
    incomplete := fun _ => rfl
    bind := fun {_ _ m k} hm hk s => (hm s).bind fun a t ht =>
      (hk a t).imp fun _ _ hu => hu.trans ht
    look := fun _ hk s => (wp_bind ..).2 (hk s s) }
  exact h hlooks s

/-! ### Recording -/

/-- The note after this goes to no error. -/
def Diagnostics.LastQuiet (d : Diagnostics) : Prop :=
  ∀ id, d.last = some id → ∀ e ∈ d.issues, e.1 = id → e.2.isError = false

theorem Diagnostics.errors_append (d : Diagnostics) (id : Nat) (hi : i.isError = false) :
    { d with issues := d.issues ++ [(id, i)] }.errors = d.errors := by
  simp [errors, list, hi]

theorem Diagnostics.errors_map {issues : List (Nat × Issue)} {g : Nat × Issue → Nat × Issue}
    (hg : ∀ e ∈ issues, g e = e ∨ e.2.isError = false ∧ (g e).2.isError = false) :
    ((issues.map g).map (·.2)).filter Issue.isError = (issues.map (·.2)).filter Issue.isError := by
  induction issues with
  | nil => rfl
  | cons e rest ih =>
    have hrest := ih fun e' he' => hg e' (.tail _ he')
    simp only [List.map_cons, List.filter_cons]
    rcases hg e (.head _) with he | ⟨he, hge⟩
    · rw [he, hrest]
    · simp only [he, hge, hrest, Bool.false_eq_true, if_false]

def Diagnostics.added (d : Diagnostics) (i : Issue) (key : IssueKey) : Diagnostics :=
  { d with
    issues := d.issues ++ [(d.count, i)]
    seen := key :: d.seen
    last := some d.count
    count := d.count + 1 }

theorem Diagnostics.record_cases (d : Diagnostics) (i : Issue) :
    d.record i = (.dropped, { d with last := none }) ∨
      d.record i = (.unkeyed, { d with last := none }) ∨
      ∃ key, i.key? = some key ∧ d.record i = (.as d.count, d.added i key) := by
  unfold record
  dsimp only
  split
  · exact .inl rfl
  · split
    · exact .inr (.inl rfl)
    · rename_i key hkey
      split
      · exact .inl rfl
      · exact .inr (.inr ⟨key, hkey, rfl⟩)

theorem Issue.key?_severity {key : IssueKey} (h : i.key? = some key) :
    key.severity = i.severity := by
  obtain ⟨message, _, h⟩ := Option.bind_eq_some_iff.1 h
  obtain ⟨place, _, h⟩ := Option.bind_eq_some_iff.1 h
  cases h
  rfl

theorem Diagnostics.SameErrors.added {key : IssueKey} (hi : i.isError = false)
    (hkey : i.key? = some key) : d.SameErrors (d.added i key) where
  lines := rfl
  maxErrors := rfl
  errors := d.errors_append d.count hi
  seen other hother := by
    have hne : (other == key) = false := by
      rw [beq_eq_false_iff_ne]
      rintro rfl
      rw [Issue.key?_severity hkey] at hother
      simp [Issue.isError, hother] at hi
    simp only [Diagnostics.added, List.contains_cons, hne, Bool.false_or]

theorem GenState.Numbers.added (hs : s.Numbers) (i : Issue) (key : IssueKey) :
    { s with diagnostics := s.diagnostics.added i key }.Numbers where
  issues e he := by
    rcases List.mem_append.1 he with he | he
    · exact Nat.lt_succ_of_lt (hs.issues e he)
    · rw [List.mem_singleton.1 he]
      exact Nat.lt_succ_self _
  waiting p hp := by
    obtain ⟨hcount, herrors⟩ := hs.waiting p hp
    refine ⟨Nat.lt_succ_of_lt hcount, fun e he heq => ?_⟩
    rcases List.mem_append.1 he with he | he
    · exact herrors e he heq
    · rw [List.mem_singleton.1 he] at heq
      exact absurd heq (Nat.ne_of_gt hcount)

theorem GenState.Numbers.diagnose (hs : s.Numbers) (hissues : d.issues = s.diagnostics.issues)
    (hcount : d.count = s.diagnostics.count) : { s with diagnostics := d }.Numbers where
  issues e he := by
    change e ∈ d.issues at he
    change e.1 < d.count
    rw [hcount]
    exact hs.issues e (hissues ▸ he)
  waiting p hp := by
    change p.issue < d.count ∧ ∀ e ∈ d.issues, e.1 = p.issue → e.2.isError = false
    rw [hcount, hissues]
    exact hs.waiting p hp

theorem GenState.Numbers.map (hs : s.Numbers) {g : Nat × Issue → Nat × Issue}
    (hnumber : ∀ e, (g e).1 = e.1) (herror : ∀ e, (g e).2.isError = e.2.isError) :
    { s with diagnostics :=
      { s.diagnostics with issues := s.diagnostics.issues.map g } }.Numbers where
  issues e he := by
    obtain ⟨e', he', rfl⟩ := List.mem_map.1 he
    rw [hnumber]
    exact hs.issues e' he'
  waiting p hp := by
    refine ⟨(hs.waiting p hp).1, fun e he heq => ?_⟩
    obtain ⟨e', he', rfl⟩ := List.mem_map.1 he
    rw [hnumber] at heq
    rw [herror]
    exact (hs.waiting p hp).2 e' he' heq

theorem GenState.Alike.diagnose (h : s.diagnostics.SameErrors d) :
    s.Alike { s with diagnostics := d } := ⟨⟨rfl, rfl, rfl, rfl, rfl, rfl, rfl⟩, h⟩

theorem Silent.report (about : Value) (message : String) (hs : s.Numbers) :
    wp (Gen.report .warning about message) (fun r t => (s.Alike t ∧ t.Numbers) ∧
      t.diagnostics.LastQuiet ∧ ∀ id, r = some id → t.frames = s.frames ∧ id < t.diagnostics.count ∧
        ∀ e ∈ t.diagnostics.issues, e.1 = id → e.2.isError = false)
      (fun e _ => e.isCrash = true) s := by
  unfold Gen.report
  rw [wp_bind, wp_get]
  refine (wp_bind ..).2 (wp_ofOption (fun i hmake => ?_) fun _ => rfl)
  have hi : i.isError = false := by
    obtain ⟨line, _, h⟩ := Option.bind_eq_some_iff.1 hmake
    cases h
    rfl
  have hdropped : s.diagnostics.SameErrors { s.diagnostics with last := none } :=
    ⟨rfl, rfl, rfl, fun _ _ => rfl⟩
  rcases s.diagnostics.record_cases i with h | h | ⟨key, hkey, h⟩
  · rw [h]
    exact ⟨⟨.diagnose hdropped, hs.diagnose rfl rfl⟩, nofun, nofun⟩
  · rw [h]
    exact rfl
  · rw [h]
    have hfresh : ∀ e ∈ (s.diagnostics.added i key).issues, e.1 = s.diagnostics.count →
        e.2.isError = false := by
      intro e he heq
      rcases List.mem_append.1 he with he | he
      · exact absurd heq (Nat.ne_of_lt (hs.issues e he))
      · rw [List.mem_singleton.1 he]
        exact hi
    refine ⟨⟨.diagnose (.added hi hkey), hs.added i key⟩, fun id hid => ?_, fun id hid => ?_⟩
    · cases hid
      exact hfresh
    · cases hid
      exact ⟨rfl, Nat.lt_succ_self _, hfresh⟩

theorem Silent.note (about : Value) (message : String) (hs : s.Numbers)
    (hlast : s.diagnostics.LastQuiet) :
    wp (Gen.note about message) (fun _ t => s.Alike t ∧ t.Numbers) (fun e _ => e.isCrash = true)
      s := by
  unfold Gen.note
  rw [wp_bind, wp_get]
  refine (wp_bind ..).2 (wp_ofOption (fun d hnote => ?_) fun _ => rfl)
  rw [wp_modify]
  unfold Diagnostics.note? at hnote
  split at hnote
  · cases hnote
    exact ⟨.refl s, hs⟩
  · rename_i id hid
    obtain ⟨n, _, hd⟩ := Option.bind_eq_some_iff.1 hnote
    cases hd
    refine ⟨.diagnose ⟨rfl, rfl, Diagnostics.errors_map fun e he => ?_, fun _ _ => rfl⟩,
      hs.map (fun _ => rfl) fun e => ?_⟩
    · by_cases hk : e.1 = id
      · have hold := hlast id hid e he hk
        refine .inr ⟨hold, ?_⟩
        simp only [if_pos hk]
        exact hold
      · exact .inl (by simp only [if_neg hk])
    · dsimp only
      split <;> rfl

/-! ### Waiting -/

theorem Frames.Waits.of_modify {g : Frame → Frame} (h : (fs.modify id g).Waits p) :
    fs.Waits p ∨ ∃ f, fs.frame? id = some f ∧ p ∈ (g f).parked := by
  obtain ⟨id', f, hf, hp⟩ := h
  rw [frame?_modify] at hf
  split at hf
  · rename_i hid
    obtain ⟨f', hf', rfl⟩ := Option.map_eq_some_iff.1 hf
    exact .inr ⟨f', hid ▸ hf', hp⟩
  · exact .inl ⟨id', f, hf, hp⟩

theorem Frames.Waits.of_same {g : Frame → Frame} (h : (fs.modify id g).Waits p)
    (hg : ∀ f, (g f).parked = f.parked) : fs.Waits p := by
  rcases h.of_modify with h | ⟨f, hf, hp⟩
  · exact h
  · exact ⟨id, f, hf, hg f ▸ hp⟩

theorem Frames.waits_copyIvarRefs (h : (fs.copyIvarRefs id).Waits p) : fs.Waits p :=
  copyIvarRefs_induction (P := fun gs => gs.Waits p → fs.Waits p) (fun h => h)
    (fun _ _ _ _ _ _ _ ih hp => ih (hp.of_same fun _ => rfl)) h

theorem Frames.waits_new {f : Frame} (hf : f.parked = []) (h : (fs.new f).2.Waits p) :
    fs.Waits p := by
  obtain ⟨id, g, hg, hp⟩ := h
  rw [frame?_new] at hg
  split at hg
  · cases hg
    rw [hf] at hp
    cases hp
  · exact ⟨id, g, hg, hp⟩

theorem Frames.Waits.of_setParked {parked : List Parked} (h : (fs.setParked id parked).Waits p) :
    fs.Waits p ∨ p ∈ parked := by
  rcases h.of_modify with h | ⟨f, _, hp⟩
  · exact .inl h
  · exact .inr hp

theorem Frames.Waits.of_mem_parked (h : p ∈ fs.parked id) : fs.Waits p := by
  rw [parked] at h
  cases hf : fs.frame? (fs.root id) with
  | none => simp [hf] at h
  | some f =>
    rw [hf] at h
    exact ⟨_, f, hf, h⟩

@[simp] theorem Frames.unparked_setParked (fs : Frames) (id : FrameId) (parked : List Parked) :
    (fs.setParked id parked).unparked = fs.unparked := by
  have hsame (f : Frame) : { f with parked }.unparked = f.unparked := rfl
  exact congrArg Frames.mk (map_modify_same hsame ..)

theorem Silent.park (frame : FrameId) (about : Value) (message : String) (name : Key)
    (rule : DeferralRule) (hs : s.Numbers) :
    wp (Gen.park frame about message name rule) (fun _ t => (s.Alike t ∧ t.Numbers) ∧
      t.diagnostics.LastQuiet) (fun e _ => e.isCrash = true) s := by
  refine (Silent.report about message hs).bind fun r t ht => ?_
  obtain ⟨⟨halike, ht⟩, hlast, hnumber⟩ := ht
  cases r with
  | none => exact ⟨⟨halike, ht⟩, hlast⟩
  | some issue =>
    obtain ⟨_, hcount, hwarning⟩ := hnumber issue rfl
    refine ⟨⟨⟨?_, halike.diagnostics⟩, ht.issues, fun p hp => ?_⟩, hlast⟩
    · obtain ⟨hsettings, hsymbols, hunparked, hancestry, htrace, hbuffers, hmethods⟩ :=
        halike.agrees
      exact ⟨hsettings, hsymbols, (Frames.unparked_setParked ..).trans hunparked, hancestry, htrace,
        hbuffers, hmethods⟩
    · rcases Frames.Waits.of_setParked hp with hp | hp
      · exact ht.waiting p hp
      · rcases List.mem_append.1 hp with hp | hp
        · exact ht.waiting p (.of_mem_parked hp)
        · rw [List.mem_singleton.1 hp]
          exact ⟨hcount, hwarning⟩

theorem silent_warns : Warns @Silent where
  pure _ s hs := ⟨.refl s, hs⟩
  incomplete _ _ := rfl
  bind {_ _ m k} hm hk s hs := (hm s hs).bind fun a t ht =>
    (hk a t ht.2).imp fun _ _ hu => ⟨ht.1.trans hu.1, hu.2⟩
  look _ hk s hs := (wp_bind ..).2 (hk s s hs)
  warning about message s hs :=
    (wp_discard _).2 ((Silent.report about message hs).imp fun _ _ ht => ht.1)
  explained about message r text hr s hs := by
    refine (wp_bind ..).2 ((wp_discard _).2 ?_)
    refine (Silent.report about message hs).imp fun _ t ⟨⟨halike, ht⟩, hlast, _⟩ => ?_
    refine (wp_of_reads hr t).bind fun v u hu => ?_
    subst hu
    exact (Silent.note v text ht hlast).imp fun _ _ hx => ⟨halike.trans hx.1, hx.2⟩
  park frame about message name rule place text s hs := by
    refine (Silent.park frame about message name rule hs).bind fun recorded t ⟨⟨halike, ht⟩,
      hlast⟩ => ?_
    cases place with
    | none => exact ⟨halike, ht⟩
    | some place =>
      dsimp only
      split
      · exact (Silent.note place text ht hlast).imp fun _ _ hx => ⟨halike.trans hx.1, hx.2⟩
      · exact ⟨halike, ht⟩

theorem Diagnostics.SameErrors.withdraw {id : Nat}
    (h : ∀ e ∈ d.issues, e.1 = id → e.2.isError = false) : d.SameErrors (d.withdraw id) := by
  unfold Diagnostics.withdraw
  split
  · exact .refl d
  · rename_i i hi
    have hmem : (id, i) ∈ d.issues := by
      obtain ⟨before, after, hissues, _⟩ := List.lookup_eq_some_iff.1 hi
      rw [hissues]
      simp
    refine ⟨rfl, rfl, ?_, fun key hkey => ?_⟩
    · simp only [Diagnostics.errors, Diagnostics.list, List.filter_map, List.filter_filter]
      refine congrArg _ (List.filter_congr fun e he => ?_)
      by_cases hid : e.1 = id
      · simp [h e he hid]
      · simp [hid]
    · rw [Bool.eq_iff_iff]
      simp only [List.contains_iff_mem, List.mem_filter, ne_eq, decide_not, Bool.not_eq_true',
        decide_eq_false_iff_not, and_iff_left_iff_imp]
      rintro _ hsame
      have hwarning := h _ hmem rfl
      simp [Issue.isError, ← Issue.key?_severity hsame.symm, hkey] at hwarning

/-- Warnings wait that are no errors. -/
def Waiting (d : Diagnostics) (W : Parked → Prop) : Prop :=
  ∀ p, W p → p.issue < d.count ∧ ∀ e ∈ d.issues, e.1 = p.issue → e.2.isError = false

theorem Diagnostics.withdraw_le (d : Diagnostics) (id : Nat) :
    (d.withdraw id).count = d.count ∧ ∀ e ∈ (d.withdraw id).issues, e ∈ d.issues := by
  unfold withdraw
  split
  · exact ⟨rfl, fun _ h => h⟩
  · exact ⟨rfl, fun _ h => (List.mem_filter.1 h).1⟩

theorem Diagnostics.settleAll_silent (symbols : Symbols) (frame : FrameId) (fs : Frames)
    (d : Diagnostics) (ps : List Parked) (hps : Waiting d fun p => fs.Waits p ∨ p ∈ ps) :
    let r := settleAll symbols frame fs d ps
    r.1.unparked = fs.unparked ∧ d.SameErrors r.2.1 ∧ r.2.1.count = d.count ∧
      (∀ e ∈ r.2.1.issues, e ∈ d.issues) ∧ Waiting r.2.1 r.1.Waits := by
  induction ps generalizing fs d with
  | nil => exact ⟨rfl, .refl d, rfl, fun _ h => h, fun p hp => hps p (.inl hp)⟩
  | cons p rest ih =>
    have hrest : Waiting d fun q => fs.Waits q ∨ q ∈ rest := fun q hq =>
      hps q (hq.imp_right (List.mem_cons_of_mem p))
    have hstop : Waiting d fs.Waits := fun q hq => hps q (.inl hq)
    rw [settleAll]
    split
    · exact ih fs d hrest
    · split
      · exact ⟨rfl, .refl d, rfl, fun _ h => h, hstop⟩
      · split
        · obtain ⟨hcount, hissues⟩ := d.withdraw_le p.issue
          have hwithdrawn : Waiting (d.withdraw p.issue) fun q =>
              (fs.setParked frame ((fs.parked frame).filter (·.issue ≠ p.issue))).Waits q ∨
                q ∈ rest := by
            intro q hq
            have hold : fs.Waits q ∨ q ∈ rest := by
              rcases hq with hq | hq
              · rcases hq.of_setParked with hq | hq
                · exact .inl hq
                · exact .inl (.of_mem_parked (List.mem_filter.1 hq).1)
              · exact .inr hq
            obtain ⟨hlt, herrors⟩ := hrest q hold
            exact ⟨hcount ▸ hlt, fun e he => herrors e (hissues e he)⟩
          obtain ⟨hunparked, hsame, hcount', hissues', hwaiting⟩ := ih _ _ hwithdrawn
          have hfirst := Diagnostics.SameErrors.withdraw (hps p (.inr (.head _))).2
          exact ⟨hunparked.trans (Frames.unparked_setParked ..), hfirst.trans hsame,
            hcount'.trans hcount, fun e he => hissues e (hissues' e he), hwaiting⟩
        · exact ih fs d hrest

theorem Silent.settle (frame : FrameId) : Silent (Gen.settle frame) := by
  intro s hs
  unfold Gen.settle
  rw [wp_bind, wp_get]
  have hwaiting : Waiting s.diagnostics fun p => s.frames.Waits p ∨ p ∈ s.frames.parked frame :=
    fun p hp => hs.waiting p (hp.elim id .of_mem_parked)
  have hsettled := Diagnostics.settleAll_silent s.symbols frame s.frames s.diagnostics
    (s.frames.parked frame) hwaiting
  rw [← Diagnostics.settle] at hsettled
  generalize s.diagnostics.settle s.symbols s.frames frame = settled at hsettled ⊢
  obtain ⟨frames, diagnostics, judged⟩ := settled
  obtain ⟨hunparked, hsame, hcount, hissues, hrest⟩ := hsettled
  simp only [wp_bind, wp_set]
  have halike : s.Alike { s with frames, diagnostics } :=
    ⟨⟨rfl, rfl, hunparked, rfl, rfl, rfl, rfl⟩, hsame⟩
  have hnumbers : { s with frames, diagnostics }.Numbers :=
    ⟨fun e he => hcount ▸ hs.issues e (hissues e he), hrest⟩
  cases judged with
  | true => exact ⟨halike, hnumbers⟩
  | false => exact rfl

end ObjectiveJ
