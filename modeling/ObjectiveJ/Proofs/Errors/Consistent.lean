import Mathlib.Data.List.Nodup
import ObjectiveJ.Proofs.Warnings.Silent

/-!
# Issues, keys and parked warnings

Three lists are kept in step: the issues, the keys that have been seen, and the warnings that wait
in the root frames. The keys seen are those of the issues that were recorded, in order, and no key
comes twice; a fatal error is an issue without a key. A warning that waits is one of the recorded
issues. The end of a frame takes the warnings that it shows to be unfounded out of all three lists.
-/

namespace ObjectiveJ

open Gen

/-! ### Frames -/

namespace Frames

/-- All warnings that wait. -/
def waiting (fs : Frames) : List Parked := fs.store.toList.flatMap (·.parked)

variable (fs : Frames) (id : FrameId) (parked : List Parked)

theorem bare_setParked : (fs.setParked id parked).bare = fs.bare := by
  rw [← bare_unparked, unparked_setParked, bare_unparked]

theorem root_setParked : (fs.setParked id parked).root id = fs.root id := by
  rw [← root_bare, bare_setParked, root_bare]

theorem setParked_setParked (parked' : List Parked) :
    (fs.setParked id parked).setParked id parked' = fs.setParked id parked' := by
  rw [setParked, root_setParked]
  simp only [setParked, modify, Frames.mk.injEq]
  apply Array.ext
  · simp
  · intro i _ _
    simp only [Array.getElem_modify]
    split <;> rfl

theorem setParked_self : fs.setParked id (fs.parked id) = fs := by
  simp only [setParked, modify, Frames.parked]
  refine congrArg Frames.mk (Array.ext (by simp) fun i _ hi => ?_)
  simp only [Array.getElem_modify]
  split
  · rename_i h
    simp [h, frame?, hi]
  · rfl

/-- The warnings in a root frame stand among all that wait, and are changed there. Without a root
frame there are none. -/
theorem exists_waiting_eq : (∀ parked, fs.setParked id parked = fs) ∧ fs.parked id = [] ∨
    ∃ before after, fs.waiting = before ++ fs.parked id ++ after ∧ ∀ parked,
      (fs.setParked id parked).waiting = before ++ parked ++ after ∧
      (fs.setParked id parked).parked id = parked := by
  cases hf : fs.frame? (fs.root id) with
  | none =>
    refine .inl ⟨fun parked => ?_, by simp [Frames.parked, hf]⟩
    refine congrArg Frames.mk (Array.ext (by simp) fun i _ hi => ?_)
    have hne : fs.root id ≠ i := by
      rintro rfl
      exact absurd hi (Nat.not_lt.2 (Array.getElem?_eq_none_iff.1 hf))
    simp [Array.getElem_modify, hne]
  | some f =>
    obtain ⟨hi, rfl⟩ := Array.getElem?_eq_some_iff.1 hf
    refine .inr ⟨(fs.store.toList.take (fs.root id)).flatMap (·.parked),
      (fs.store.toList.drop (fs.root id + 1)).flatMap (·.parked), ?_, fun parked => ⟨?_, ?_⟩⟩
    · nth_rewrite 1 [waiting, ← List.take_append_drop (fs.root id) fs.store.toList]
      rw [List.drop_eq_getElem_cons hi]
      simp [Frames.parked, hf]
    · rw [waiting, setParked, modify, Array.toList_modify, List.modify_eq_take_cons_drop hi]
      simp
    · rw [Frames.parked, root_setParked, setParked, frame?_modify, if_pos rfl, hf]
      rfl

theorem mem_waiting {fs : Frames} {id : FrameId} {p : Parked} (hp : p ∈ fs.parked id) :
    p ∈ fs.waiting := by
  rcases fs.exists_waiting_eq id with ⟨_, hnone⟩ | ⟨before, after, hwaiting, _⟩
  · simp [hnone] at hp
  · simp [hwaiting, hp]

end Frames

namespace Diagnostics

variable {gone : List Nat}

def keys (issues : List (Nat × Issue)) : List (Option IssueKey) := issues.map (·.2.key?)

/-- The end of a frame shows a parked warning of the frame to be unfounded. -/
def isGone (symbols : Symbols) (fs : Frames) (frame : FrameId) (p : Parked) : Bool :=
  p.frame = frame && p.name.any (isUnfounded fs symbols frame · p.rule)

/-- The numbers of such warnings. -/
def unfounded (symbols : Symbols) (fs : Frames) (frame : FrameId) (parked : List Parked) :
    List Nat :=
  (parked.filter (isGone symbols fs frame)).map (·.issue)

/-- Without the issues of some numbers, and without their keys. -/
def without (d : Diagnostics) (gone : List Nat) : Diagnostics :=
  { d with
    issues := d.issues.filter (·.1 ∉ gone)
    seen := d.seen.filter fun key => !d.issues.any fun e => e.1 ∈ gone ∧ e.2.key? = some key }

variable {d : Diagnostics}

theorem without_of_notMem (h : ∀ e ∈ d.issues, e.1 ∉ gone) : d.without gone = d := by
  have hissues : d.issues.filter (·.1 ∉ gone) = d.issues :=
    List.filter_eq_self.2 fun e he => decide_eq_true (h e he)
  have hany (key : IssueKey) :
      (d.issues.any fun e => e.1 ∈ gone ∧ e.2.key? = some key) = false := by
    simpa using fun number i he hgone => absurd hgone (h _ he)
  simp only [without, hissues, hany, Bool.not_false, List.filter_true]

theorem without_without (d : Diagnostics) (gone gone' : List Nat) :
    (d.without gone).without gone' = d.without (gone ++ gone') := by
  simp only [without, List.filter_filter, Diagnostics.mk.injEq, true_and, and_true]
  refine ⟨List.filter_congr fun e _ => by simp [Bool.and_comm], List.filter_congr fun key _ => ?_⟩
  rw [Bool.eq_iff_iff]
  simp
  grind

theorem withdraw_eq_without (h : (d.issues.map (·.1)).Nodup) (id : Nat) :
    d.withdraw id = d.without [id] := by
  unfold withdraw
  split
  · rename_i hnone
    refine (without_of_notMem fun e he heq => ?_).symm
    simpa [List.mem_singleton.1 heq] using List.lookup_eq_none_iff.1 hnone e he
  · rename_i i hi
    have hmem : (id, i) ∈ d.issues := by
      obtain ⟨before, after, hissues, _⟩ := List.lookup_eq_some_iff.1 hi
      simp [hissues]
    have hsame : ∀ e ∈ d.issues, e.1 = id → e.2 = i := fun e he heq => by
      rw [List.inj_on_of_nodup_map h he hmem heq]
    simp only [without, Diagnostics.mk.injEq, true_and, and_true]
    exact ⟨List.filter_congr fun e _ => by simp, List.filter_congr fun key _ => by grind⟩

/-- The parked warnings are gone through one by one, and what is unfounded is taken out. -/
theorem settleAll_eq (h : (d.issues.map (·.1)).Nodup) (symbols : Symbols) {fs : Frames}
    {frame : FrameId} (hfs : ∀ parked, (fs.setParked frame parked).parked frame = parked)
    {ps : List Parked} (hps : ∀ p ∈ ps, p.name.isSome) (parked : List Parked) :
    settleAll symbols frame (fs.setParked frame parked) d ps =
      (fs.setParked frame (parked.filter (·.issue ∉ unfounded symbols fs frame ps)),
        d.without (unfounded symbols fs frame ps), true) := by
  induction ps generalizing d parked with
  | nil =>
    rw [List.filter_eq_self.2 (by simp [unfounded])]
    exact congrArg (_, ·, true) (without_of_notMem (by simp [unfounded])).symm
  | cons p rest ih =>
    have hrest := fun q hq => hps q (.tail _ hq)
    obtain ⟨name, hname⟩ := Option.isSome_iff_exists.1 (hps p (.head _))
    have hbare := isUnfounded_of_bare (fs.bare_setParked frame parked) symbols frame name p.rule
    by_cases hframe : p.frame = frame
    · by_cases hp : isUnfounded fs symbols frame name p.rule = true
      · have hcons : unfounded symbols fs frame (p :: rest) =
            p.issue :: unfounded symbols fs frame rest := by
          simp [unfounded, isGone, hframe, hname, hp]
        have hnodup : ((d.without [p.issue]).issues.map (·.1)).Nodup :=
          (List.filter_sublist.map _).nodup h
        simp only [settleAll, hframe, hname, hbare, hp, ne_eq, not_true, if_false, if_true]
        rw [hfs, Frames.setParked_setParked, withdraw_eq_without h, ih hnodup hrest, hcons,
          without_without, List.filter_filter]
        simp [Bool.and_comm]
      · have hcons : unfounded symbols fs frame (p :: rest) = unfounded symbols fs frame rest := by
          simp [unfounded, isGone, hname, hp]
        simp only [settleAll, hframe, hname, hbare, hp, ne_eq, not_true, if_false, hcons]
        exact ih h hrest parked
    · have hcons : unfounded symbols fs frame (p :: rest) = unfounded symbols fs frame rest := by
        simp [unfounded, isGone, hframe]
      rw [settleAll, if_pos hframe, hcons]
      exact ih h hrest parked

/-- The issues that are not those of fatal errors. -/
def recorded (d : Diagnostics) (fatals : List Nat) : List (Nat × Issue) :=
  d.issues.filter (·.1 ∉ fatals)

/-- The issues have different numbers, the keys seen are those of the recorded ones, no two of which
are the same, and what waits is recorded. -/
structure Consistent (fatals : List Nat) (fs : Frames) (d : Diagnostics) : Prop where
  numbers : (d.issues.map (·.1)).Nodup
  below : ∀ e ∈ d.issues, e.1 < d.count
  fatal : ∀ n ∈ fatals, n < d.count
  seen : d.seen.Nodup
  keys : keys (d.recorded fatals) = d.seen.reverse.map some
  waiting : (fs.waiting.map (·.issue)).Nodup
  named : ∀ p ∈ fs.waiting, p.name.isSome
  parked : ∀ p ∈ fs.waiting, p.issue ∈ (d.recorded fatals).map (·.1)

namespace Consistent

variable {fatals : List Nat} {fs : Frames} {symbols : Symbols} {frame : FrameId}
  (h : Consistent fatals fs d)

include h

/-- The end of a frame takes out the unfounded warnings that wait for it. -/
theorem settle_eq (symbols : Symbols) (frame : FrameId) :
    d.settle symbols fs frame =
      (fs.setParked frame ((fs.parked frame).filter
          (·.issue ∉ unfounded symbols fs frame (fs.parked frame))),
        d.without (unfounded symbols fs frame (fs.parked frame)), true) := by
  rcases fs.exists_waiting_eq frame with ⟨hfs, hnone⟩ | ⟨before, after, hwaiting, hfs⟩
  · rw [settle, hnone, hfs]
    exact congrArg (_, ·, true) (without_of_notMem (by simp [unfounded])).symm
  · have hnamed : ∀ p ∈ fs.parked frame, p.name.isSome := fun p hp =>
      h.named p (Frames.mem_waiting hp)
    have heq := settleAll_eq h.numbers symbols (fun parked => (hfs parked).2) hnamed
      (fs.parked frame)
    rwa [Frames.setParked_self] at heq

theorem waiting_setParked
    (hgone : ∀ n ∈ gone, n ∈ (fs.parked frame).map (·.issue)) :
    (fs.setParked frame ((fs.parked frame).filter (·.issue ∉ gone))).waiting =
      fs.waiting.filter (·.issue ∉ gone) := by
  rcases fs.exists_waiting_eq frame with ⟨hfs, hnone⟩ | ⟨before, after, hwaiting, hfs⟩
  · have hnil : gone = [] := List.eq_nil_iff_forall_not_mem.2 fun n hn => by
      simpa [hnone] using hgone n hn
    simp [hfs, hnil]
  · -- a number that is parked in this root is parked nowhere else
    have hnodup := h.waiting
    rw [hwaiting] at hnodup
    simp only [List.map_append, List.nodup_append, List.mem_append] at hnodup
    obtain ⟨⟨_, _, hbefore⟩, _, hafter⟩ := hnodup
    have hb : before.filter (·.issue ∉ gone) = before := List.filter_eq_self.2 fun p hp =>
      decide_eq_true fun hn => hbefore _ (List.mem_map_of_mem hp) _ (hgone _ hn) rfl
    have ha : after.filter (·.issue ∉ gone) = after := List.filter_eq_self.2 fun p hp =>
      decide_eq_true fun hn => hafter _ (.inr (hgone _ hn)) _ (List.mem_map_of_mem hp) rfl
    rw [(hfs _).1, hwaiting, List.filter_append, List.filter_append, hb, ha]

theorem keys_nodup : (Diagnostics.keys (d.recorded fatals)).Nodup := by
  rw [h.keys]
  exact (List.nodup_reverse.2 h.seen).map fun _ _ => Option.some.inj

/-- Warnings that wait are taken out, with their keys. -/
theorem without (hgone : ∀ n ∈ gone, n ∈ fs.waiting.map (·.issue))
    {fs' : Frames} (hfs' : fs'.waiting = fs.waiting.filter (·.issue ∉ gone)) :
    Consistent fatals fs' (d.without gone) where
  numbers := (List.filter_sublist.map _).nodup h.numbers
  below e he := h.below e (List.mem_filter.1 he).1
  fatal := h.fatal
  seen := h.seen.filter _
  keys := by
    have hrecorded : (d.without gone).recorded fatals =
        (d.recorded fatals).filter (·.1 ∉ gone) := by
      simp only [recorded, Diagnostics.without, List.filter_filter, Bool.and_comm]
    let kept (key : Option IssueKey) : Bool := !d.issues.any fun e => e.1 ∈ gone ∧ e.2.key? = key
    have hkey : ∀ e ∈ d.recorded fatals, decide (e.1 ∉ gone) = kept e.2.key? := by
      intro e he
      rw [Bool.eq_iff_iff]
      simp only [kept, decide_eq_true_eq, Bool.not_eq_true', List.any_eq_false, not_and]
      refine ⟨fun hn e' he' hn' hsame => ?_, fun hn hmem => hn e (List.mem_filter.1 he).1 hmem rfl⟩
      -- what is taken out is recorded, and its key is its own
      obtain ⟨p, hp, hissue⟩ := List.mem_map.1 (hgone e'.1 hn')
      obtain ⟨x, hx, hnumber⟩ := List.mem_map.1 (h.parked p hp)
      have hx' := List.mem_filter.1 hx
      have hrec : e' ∈ d.recorded fatals :=
        List.mem_filter.2 ⟨he', by rw [← hissue, ← hnumber]; exact hx'.2⟩
      exact hn (List.inj_on_of_nodup_map h.keys_nodup hrec he hsame ▸ hn')
    calc
      Diagnostics.keys ((d.without gone).recorded fatals)
          = (Diagnostics.keys (d.recorded fatals)).filter kept := by
            rw [hrecorded, List.filter_congr hkey, Diagnostics.keys, Diagnostics.keys,
              List.filter_map]
            rfl
      _ = (d.without gone).seen.reverse.map some := by
            rw [h.keys, List.filter_map, List.filter_reverse]
            rfl
  waiting := by
    rw [hfs']
    exact (List.filter_sublist.map _).nodup h.waiting
  named p hp := h.named p (List.mem_filter.1 (hfs' ▸ hp)).1
  parked p hp := by
    obtain ⟨hp, hkept⟩ := List.mem_filter.1 (hfs' ▸ hp)
    obtain ⟨e, he, hissue⟩ := List.mem_map.1 (h.parked p hp)
    refine List.mem_map.2 ⟨e, List.mem_filter.2 ⟨List.mem_filter.2 ⟨(List.mem_filter.1 he).1, ?_⟩,
      (List.mem_filter.1 he).2⟩, hissue⟩
    rwa [hissue]

theorem filter_parked (symbols : Symbols) (frame : FrameId) :
    (fs.parked frame).filter (·.issue ∉ unfounded symbols fs frame (fs.parked frame)) =
      (fs.parked frame).filter (!isGone symbols fs frame ·) := by
  refine List.filter_congr fun p hp => ?_
  rw [Bool.eq_iff_iff, decide_eq_true_iff, Bool.not_eq_true', ← Bool.not_eq_true, not_iff_not]
  constructor
  · intro hmem
    obtain ⟨q, hq, hsame⟩ := List.mem_map.1 hmem
    obtain ⟨hq, hgone⟩ := List.mem_filter.1 hq
    rwa [← List.inj_on_of_nodup_map h.waiting (Frames.mem_waiting hq) (Frames.mem_waiting hp) hsame]
  · exact fun hgone => List.mem_map_of_mem (List.mem_filter.2 ⟨hp, hgone⟩)

theorem settled (symbols : Symbols) (frame : FrameId) :
    Consistent fatals (d.settle symbols fs frame).1 (d.settle symbols fs frame).2.1 := by
  have hgone : ∀ n ∈ unfounded symbols fs frame (fs.parked frame),
      n ∈ (fs.parked frame).map (·.issue) := fun n hn =>
    (List.filter_sublist.map _).subset hn
  rw [h.settle_eq]
  refine h.without (fun n hn => ?_) (h.waiting_setParked hgone)
  obtain ⟨p, hp, rfl⟩ := List.mem_map.1 (hgone n hn)
  exact List.mem_map_of_mem (Frames.mem_waiting hp)

theorem numbers_append (i : Issue) :
    ((d.issues ++ [(d.count, i)]).map (·.1)).Nodup := by
  rw [List.map_append, List.map_singleton, ← List.concat_eq_append]
  refine h.numbers.concat fun hmem => ?_
  obtain ⟨e, he, heq⟩ := List.mem_map.1 hmem
  exact absurd heq (Nat.ne_of_lt (h.below e he))

theorem below_append (i : Issue) :
    ∀ e ∈ d.issues ++ [(d.count, i)], e.1 < d.count + 1 := by
  intro e he
  rcases List.mem_append.1 he with he | he
  · exact Nat.lt_succ_of_lt (h.below e he)
  · rw [List.mem_singleton.1 he]
    exact Nat.lt_succ_self _

theorem added {i : Issue} {key : IssueKey} (hkey : i.key? = some key)
    (hnew : key ∉ d.seen) : Consistent fatals fs (d.added i key) := by
  have hfresh : d.count ∉ fatals := fun hmem => absurd (h.fatal _ hmem) (Nat.lt_irrefl _)
  have hrecorded : (d.added i key).recorded fatals = d.recorded fatals ++ [(d.count, i)] := by
    simp [recorded, Diagnostics.added, List.filter_append, hfresh]
  refine ⟨h.numbers_append i, h.below_append i, fun n hn => Nat.lt_succ_of_lt (h.fatal n hn),
    h.seen.cons hnew, ?_, h.waiting, h.named, fun p hp => ?_⟩
  · rw [hrecorded, Diagnostics.keys, List.map_append, ← Diagnostics.keys, h.keys]
    simp [Diagnostics.added, hkey]
  · rw [hrecorded, List.map_append]
    exact List.mem_append_left _ (h.parked p hp)

theorem addFatal (i : Issue) :
    Consistent (d.count :: fatals) fs (d.addFatal i) := by
  have hrecorded : (d.addFatal i).recorded (d.count :: fatals) = d.recorded fatals := by
    have hold : d.issues.filter (·.1 ∉ d.count :: fatals) = d.recorded fatals :=
      List.filter_congr fun e he => by simp [Nat.ne_of_lt (h.below e he)]
    simpa [recorded, Diagnostics.addFatal, List.filter_append] using hold
  refine ⟨h.numbers_append i, h.below_append i, fun n hn => ?_, h.seen, ?_, h.waiting, h.named, ?_⟩
  · rcases List.mem_cons.1 hn with rfl | hn
    · exact Nat.lt_succ_self _
    · exact Nat.lt_succ_of_lt (h.fatal n hn)
  · rw [hrecorded]
    exact h.keys
  · rw [hrecorded]
    exact h.parked

theorem map {g : Nat × Issue → Nat × Issue}
    (hnumber : ∀ e, (g e).1 = e.1) (hkey : ∀ e, (g e).2.key? = e.2.key?) :
    Consistent fatals fs { d with issues := d.issues.map g } := by
  have hrecorded : ({ d with issues := d.issues.map g } : Diagnostics).recorded fatals =
      (d.recorded fatals).map g := by
    simp [recorded, List.filter_map, Function.comp_def, hnumber]
  have hnumbers (l : List (Nat × Issue)) : (l.map g).map (·.1) = l.map (·.1) := by
    simp [Function.comp_def, hnumber]
  refine ⟨(hnumbers d.issues).symm ▸ h.numbers, ?_, h.fatal, h.seen, ?_, h.waiting, h.named, ?_⟩
  · intro e he
    obtain ⟨e', he', rfl⟩ := List.mem_map.1 he
    rw [hnumber]
    exact h.below e' he'
  · rw [hrecorded, ← h.keys]
    simp [Diagnostics.keys, Function.comp_def, hkey]
  · rw [hrecorded, hnumbers]
    exact h.parked

theorem note {place message : Value} {d' : Diagnostics}
    (hd' : d.note? place message = some d') : Consistent fatals fs d' := by
  unfold note? at hd'
  split at hd'
  · cases hd'
    exact h
  · obtain ⟨n, _, hd'⟩ := Option.bind_eq_some_iff.1 hd'
    cases hd'
    refine h.map (fun _ => rfl) fun e => ?_
    dsimp only
    split <;> rfl

theorem mono {fs' : Frames} (hfs' : fs'.waiting.Sublist fs.waiting) :
    Consistent fatals fs' d :=
  { h with
    waiting := (hfs'.map _).nodup h.waiting
    named := fun p hp => h.named p (hfs'.subset hp)
    parked := fun p hp => h.parked p (hfs'.subset hp) }

theorem park {issue : Nat}
    (hissue : issue ∈ (d.recorded fatals).map (·.1)) (hnew : issue ∉ fs.waiting.map (·.issue))
    (frame : FrameId) (message : Value) (name : Key) (rule : DeferralRule) :
    Consistent fatals (Diagnostics.park fs frame issue message (some name) rule) d := by
  unfold Diagnostics.park
  rcases fs.exists_waiting_eq frame with ⟨hfs, hnone⟩ | ⟨before, after, hwaiting, hfs⟩
  · rwa [hfs]
  · let p : Parked := ⟨issue, message, frame, some name, rule⟩
    let fs' := fs.setParked frame (fs.parked frame ++ [p])
    have hperm : fs'.waiting.Perm (p :: fs.waiting) := by
      rw [(hfs _).1, hwaiting, ← List.append_assoc, List.append_assoc _ [p]]
      exact List.perm_middle
    have hmem : ∀ q ∈ fs'.waiting, q = p ∨ q ∈ fs.waiting := fun q hq =>
      List.mem_cons.1 (hperm.mem_iff.1 hq)
    exact { h with
      waiting := (hperm.map _).nodup_iff.2 (List.nodup_cons.2 ⟨hnew, h.waiting⟩)
      named := fun q hq => (hmem q hq).elim (fun heq => heq ▸ rfl) (h.named q)
      parked := fun q hq => (hmem q hq).elim (fun heq => heq ▸ hissue) (h.parked q) }

end Consistent

end Diagnostics

/-- A call that concerns the issues of a unit. -/
inductive Call where
  | warning (about : Value) (message : String)
  | error (about : Value) (message : String)
  | note (about : Value) (message : String)
  | park (frame : FrameId) (about : Value) (message : String) (name : Key) (rule : DeferralRule)
  | settle (frame : FrameId)

def Call.run : Call → Gen Unit
  | warning about message => Gen.warning about message
  | error about message => Gen.error about message
  | note about message => Gen.note about message
  | park frame about message name rule => discard (Gen.park frame about message name rule)
  | settle frame => Gen.settle frame

/-- The states that calls lead to, and the numbers of the issues of fatal errors. A call may fail
and leave its state behind. In between, anything may be done to the frames, but no warning is parked
otherwise. -/
inductive Calls : GenState → List Nat → Prop
  | start {s : GenState} (hissues : s.diagnostics.issues = []) (hseen : s.diagnostics.seen = [])
      (hwaiting : s.frames.waiting = []) : Calls s []
  | call {s : GenState} {fatals : List Nat} (h : Calls s fatals) (c : Call) :
      Calls (c.run.run.run s).2 fatals
  | fatal {s : GenState} {fatals : List Nat} (h : Calls s fatals) {f : Fatal} {i : Issue}
      (hi : s.diagnostics.ofFatal? f = some i) :
      Calls { s with diagnostics := s.diagnostics.addFatal i } (s.diagnostics.count :: fatals)
  | between {s t : GenState} {fatals : List Nat} (h : Calls s fatals)
      (hdiagnostics : t.diagnostics = s.diagnostics)
      (hwaiting : t.frames.waiting.Sublist s.frames.waiting) : Calls t fatals

namespace GenState

def Consistent (fatals : List Nat) (s : GenState) : Prop :=
  s.diagnostics.Consistent fatals s.frames

variable {fatals : List Nat} {s : GenState}

/-- An issue is recorded that does not wait, or it is dropped. -/
theorem Consistent.wp_report (h : s.Consistent fatals) (severity : Severity) (about : Value)
    (message : String) :
    wp (Gen.report severity about message)
        (fun r t => t.Consistent fatals ∧ ∀ issue, r = some issue →
        issue ∈ (t.diagnostics.recorded fatals).map (·.1) ∧ issue ∉ t.frames.waiting.map (·.issue))
      (fun _ t => t.Consistent fatals) s := by
  unfold Gen.report
  rw [wp_bind, wp_get]
  refine (wp_bind ..).2 (wp_ofOption (fun i _ => ?_) fun _ => h)
  have hlast : Diagnostics.Consistent fatals s.frames { s.diagnostics with last := none } :=
    { h with }
  dsimp only [Diagnostics.record]
  split
  · exact ⟨hlast, nofun⟩
  split
  · exact hlast
  rename_i key hkey
  split
  · exact ⟨hlast, nofun⟩
  rename_i hnew
  refine ⟨h.added hkey (by simpa using hnew), fun issue hissue => ?_⟩
  cases hissue
  have hfresh : s.diagnostics.count ∉ fatals :=
    fun hmem => absurd (h.fatal _ hmem) (Nat.lt_irrefl _)
  refine ⟨by simp [Diagnostics.recorded, hfresh], fun hmem => ?_⟩
  obtain ⟨p, hp, heq⟩ := List.mem_map.1 hmem
  obtain ⟨e, he, hissue⟩ := List.mem_map.1 (h.parked p hp)
  exact absurd (hissue.trans heq) (Nat.ne_of_lt (h.below e (List.mem_filter.1 he).1))

theorem Consistent.wp_call (h : s.Consistent fatals) (c : Call) :
    wp c.run (fun _ t => t.Consistent fatals) (fun _ t => t.Consistent fatals) s := by
  cases c with
  | warning about message =>
    exact (wp_discard _).2 ((h.wp_report .warning about message).imp fun _ _ ht => ht.1)
  | error about message =>
    refine (h.wp_report .error about message).bind fun r t ⟨ht, _⟩ => ?_
    split
    · rw [wp_bind, wp_get]
      refine (wp_bind ..).2 (wp_ofOption (fun reached _ => ?_) fun _ => ht)
      split <;> exact ht
    · exact ht
  | note about message =>
    refine (wp_bind ..).2 ((wp_bind ..).2 (wp_ofOption (fun d hd => ?_) fun _ => h))
    exact h.note hd
  | park frame about message name rule =>
    refine (wp_discard _).2 ((h.wp_report .warning about message).bind fun r t ⟨ht, hr⟩ => ?_)
    cases r with
    | none => exact ht
    | some issue =>
      obtain ⟨hissue, hnew⟩ := hr issue rfl
      exact ht.park hissue hnew frame (.str message) name rule
  | settle frame => exact wp_settle frame (h.settled s.symbols frame) (h.settled s.symbols frame)

end GenState

theorem Calls.consistent {s : GenState} {fatals : List Nat} (h : Calls s fatals) :
    s.Consistent fatals := by
  induction h with
  | start hissues hseen hwaiting =>
    refine ⟨?_, ?_, ?_, ?_, ?_, ?_, ?_, ?_⟩ <;>
      simp [hissues, hseen, hwaiting, Diagnostics.keys, Diagnostics.recorded]
  | @call s fatals _ c ih =>
    have hwp := ih.wp_call c
    unfold wp at hwp
    split at hwp
    · rename_i hrun
      rw [hrun]
      exact hwp
    · rename_i hrun
      rw [hrun]
      exact hwp
  | fatal _ _ ih => exact ih.addFatal _
  | between _ hdiagnostics hwaiting ih =>
    unfold GenState.Consistent
    rw [hdiagnostics]
    exact ih.mono hwaiting

open Diagnostics in
/-- Whatever calls were made, recorded issues have different keys, the keys seen are their keys, and
each parked issue is one of them and is listed once. The end of a frame removes the parked issues of
the frame that it shows to be unfounded, with their keys, and changes nothing else. -/
theorem Calls.in_step {s : GenState} {fatals : List Nat} (h : Calls s fatals) :
    (keys (s.diagnostics.recorded fatals)).Nodup ∧
    (∀ key, key ∈ s.diagnostics.seen ↔ some key ∈ keys (s.diagnostics.recorded fatals)) ∧
    (∀ p ∈ s.frames.waiting, (s.diagnostics.issues.map (·.1)).count p.issue = 1 ∧
      p.issue ∈ (s.diagnostics.recorded fatals).map (·.1)) ∧
    ∀ frame, (Gen.settle frame).run.run s = (.ok (),
      { s with
        frames := s.frames.setParked frame
          ((s.frames.parked frame).filter (!isGone s.symbols s.frames frame ·))
        diagnostics := s.diagnostics.without
          (unfounded s.symbols s.frames frame (s.frames.parked frame)) }) := by
  have hs := h.consistent
  refine ⟨hs.keys_nodup, fun key => ?_, fun p hp => ⟨?_, hs.parked p hp⟩, fun frame => ?_⟩
  · rw [hs.keys]
    simp
  · obtain ⟨e, he, heq⟩ := List.mem_map.1 (hs.parked p hp)
    exact List.count_eq_one_of_mem hs.numbers (List.mem_map.2 ⟨e, (List.mem_filter.1 he).1, heq⟩)
  · rw [run_settle, GenState.settled, hs.settle_eq, hs.filter_parked]
    rfl

/-- A function with a variable `x`. A warning that `x` is an implicit global has been parked twice,
and there has been an error. -/
def parkedTwice : GenState :=
  let park : Call := .park 0 .null "implicit" (.text "x") .implicitGlobal
  let s : GenState :=
    { settings := {}, symbols := {}, diagnostics := {}
      frames := Frames.declare ⟨#[{ kind := .function }]⟩ 0 (.text "x") (.str "x")
        { kind := .localVar } }
  let s := (park.run.run.run (park.run.run.run s).2).2
  ((Call.error .null "misplaced").run.run.run s).2

theorem parkedTwice_in_step :
    parkedTwice.diagnostics.issues.map (·.1) = [0, 1] ∧
    parkedTwice.frames.waiting.map (·.issue) = [0] ∧
    ((Gen.settle 0).run.run parkedTwice).2.diagnostics.issues.map (·.1) = [1] ∧
    ((Gen.settle 0).run.run parkedTwice).2.frames.waiting.map (·.issue) = [] := by
  have hcalls : Calls parkedTwice [] := .call (.call (.call (.start rfl rfl rfl) _) _) _
  rw [(Calls.in_step hcalls).2.2.2]
  decide +kernel

end ObjectiveJ
