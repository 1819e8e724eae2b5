import ObjectiveJ.Proofs.Law.Program
import ObjectiveJ.Proofs.Law.Relate

/-!
# Walks in another style

The options for how code is written decide about what is written, and about nothing else. Two states
are *peers* if they differ only in what has been written, in the numbers of the instructions that
frames remember, and in these options. Steps that take peers to peers, with the same outcome, are a
law, so whole programs are walked through in the same way in every style.

A method whose selector is no text cannot be given a name. So if only one of the two styles gives
names to methods, one of the walks may fail where the other one goes on.
-/

namespace ObjectiveJ

open Gen

variable {g : Frame → Frame}

/-! ### References to instance variables -/

/-- A reference without the number of its instruction. -/
def IvarRef.unindexed (r : IvarRef) : IvarRef := { r with index := 0 }

namespace NameTable

variable {α β : Type}

def map (f : α → β) (t : NameTable α) : NameTable β := ⟨t.entries.map fun e => (e.1, f e.2)⟩

end NameTable

namespace Table

variable {κ α β : Type} [DecidableEq κ] (f : α → β) (t : Table κ α) (name : κ)

theorem get?_map : (t.map f).get? name = (t.get? name).map f := by
  obtain ⟨entries⟩ := t
  simp only [get?, map]
  induction entries with
  | nil => rfl
  | cons e rest ih =>
    rw [List.map_cons, List.lookup_cons, List.lookup_cons, ih]
    cases name == e.1 <;> rfl

theorem map_set (value : α) : (t.set name value).map f = (t.map f).set name (f value) := by
  obtain ⟨entries⟩ := t
  simp only [set, map, Table.mk.injEq]
  induction entries with
  | nil => rfl
  | cons e rest ih =>
    simp only [setEntry, List.map_cons]
    split
    · rfl
    · rw [List.map_cons, ih]

theorem map_erase : (t.erase name).map f = (t.map f).erase name := by
  simp only [erase, map, List.filter_map, Table.mk.injEq]
  rfl

end Table

namespace NameTable

variable {α β : Type} (f : α → β) (t : NameTable α) (key : Key)

theorem get?_map : (t.map f).get? key = (t.get? key).map f := by
  simp only [get?, map, Table.get?_map, Option.map_map]
  rfl

theorem map_set (name : Value) (value : α) :
    (t.set key name value).map f = (t.map f).set key name (f value) := by
  simp only [set, map, Table.map_set, Table.get?_map, Option.map_map]
  rfl

theorem map_erase : (t.erase key).map f = (t.map f).erase key := by
  simp only [erase, map, Table.map_erase]

end NameTable

/-- A frame without the numbers of the instructions that it remembers. -/
def Frame.unindexed (f : Frame) : Frame :=
  { f with ivarRefs := f.ivarRefs.map fun refs => refs.map IvarRef.unindexed }

namespace Frames

abbrev unindexed (fs : Frames) : Frames := fs.mapped Frame.unindexed

variable {id : FrameId}

theorem bare_unindexed : ∀ fs : Frames, fs.unindexed.bare = fs.bare := bare_mapped fun _ => rfl

theorem root_unindexed (fs : Frames) (id : FrameId) : fs.unindexed.root id = fs.root id := by
  rw [← root_bare, bare_unindexed, root_bare]

theorem parked_unindexed (fs : Frames) (id : FrameId) : fs.unindexed.parked id = fs.parked id := by
  rw [parked, parked, root_unindexed, frame?_mapped, Option.map_map]
  rfl

theorem unindexed_setParked (fs : Frames) (id : FrameId) (parked : List Parked) :
    (fs.setParked id parked).unindexed = fs.unindexed.setParked id parked := by
  rw [setParked, setParked, root_unindexed]
  exact mapped_modify fun _ => rfl

theorem unindexed_addIvarRefs (fs : Frames) (key : Key) (name : Value) (refs : List IvarRef) :
    (fs.addIvarRefs id key name refs).unindexed =
      fs.unindexed.addIvarRefs id key name (refs.map IvarRef.unindexed) := by
  refine mapped_modify fun f => ?_
  simp only [Frame.unindexed, NameTable.map_set, NameTable.get?_map, List.map_append]
  cases f.ivarRefs.get? key <;> rfl

theorem unindexed_dropIvarRefs (fs : Frames) (key : Key) :
    (fs.dropIvarRefs id key).unindexed = fs.unindexed.dropIvarRefs id key :=
  mapped_modify fun f => by simp only [Frame.unindexed, NameTable.map_erase]

theorem ivarRefs_unindexed (fs : Frames) (id : FrameId) (key : Key) :
    fs.unindexed.ivarRefs id key = (fs.ivarRefs id key).map IvarRef.unindexed := by
  rw [ivarRefs, ivarRefs, frame?_mapped]
  cases fs.frame? id with
  | none => rfl
  | some f =>
    simp only [Option.map_some, Option.bind_some, Frame.unindexed, NameTable.get?_map]
    cases f.ivarRefs.get? key <;> rfl

theorem unindexed_copyIvarRefs (fs : Frames) (id : FrameId) :
    (fs.copyIvarRefs id).unindexed = fs.unindexed.copyIvarRefs id :=
  mapped_copyIvarRefs (fun fs _ => unindexed_addIvarRefs fs) fun f => by
    simp only [Frame.handed?, Option.map_map]
    rfl

end Frames

/-- Frames do not end otherwise if they remember other instructions. -/
theorem Diagnostics.settleAll_unindexed (symbols : Symbols) (frame : FrameId) (fs : Frames)
    (d : Diagnostics) (parked : List Parked) :
    settleAll symbols frame fs.unindexed d parked =
      ((settleAll symbols frame fs d parked).1.unindexed,
      (settleAll symbols frame fs d parked).2) := by
  induction parked generalizing fs d with
  | nil => rfl
  | cons p rest ih =>
    have hunfounded := isUnfounded_of_bare (Frames.bare_unindexed fs) symbols frame
    simp only [settleAll, hunfounded, Frames.parked_unindexed, ← Frames.unindexed_setParked, ih]
    split
    · rfl
    cases p.name with
    | none => rfl
    | some name =>
      dsimp only
      split <;> rfl

/-! ### Peers -/

/-- States that differ only in what has been written, and in which style. If just one of the styles
has names for methods, `p` holds for it. -/
structure GenState.Peers (p : Bool → Prop) (s s' : GenState) : Prop where
  objjScope : s'.settings.objjScope = s.settings.objjScope
  source : s'.settings.source = s.settings.source
  predefined : s'.settings.predefined = s.settings.predefined
  stop : s.settings.stop = none ∧ s'.settings.stop = none
  methodNames : ∀ first, s.settings.OnlyNames s'.settings first → p first
  symbols : s'.symbols = s.symbols
  diagnostics : s'.diagnostics = s.diagnostics
  frames : s'.frames.unindexed = s.frames.unindexed
  ancestry : s'.ancestry = s.ancestry
  buffers : s'.buffers = s.buffers
  methods : s'.methods = s.methods

theorem GenState.Peers.concurs {p : Bool → Prop} {s s' : GenState} (h : s.Peers p s') :
    s.Concurs s' where
  objjScope := h.objjScope
  source := h.source
  predefined := h.predefined
  symbols := h.symbols
  bare := by rw [← Frames.bare_unindexed, h.frames, Frames.bare_unindexed]
  ancestry := h.ancestry
  buffers := h.buffers
  methods := h.methods

/-- Two steps that do the same, but for what they write. One for which `p` holds may need a part
that is missing. -/
def Match (p : Bool → Prop) {α : Type} (m m' : Gen α) : Prop :=
  Relates (fun e => e = .incomplete ∧ p true) (fun e => e = .incomplete ∧ p false)
    (GenState.Peers p) (GenState.Peers p) m m'

namespace Match

variable {p : Bool → Prop} {α β : Type} {m m' : Gen α} {k k' : α → Gen β} (id : FrameId)

theorem pure (a : α) : Match p (pure a) (pure a) := Relates.pure a

theorem throw (e : Failure) : Match p (throw e : Gen α) (throw e) := Relates.throw e fun _ _ h => h

theorem bind (hm : Match p m m') (hk : ∀ a, Match p (k a) (k' a)) :
    Match p (m >>= k) (m' >>= k') := Relates.bind (fun _ _ h => h) hm hk

theorem look {k k' : GenState → Gen β} (hk : ∀ s s', s.Peers p s' → Match p (k s) (k' s')) :
    Match p (get >>= k) (get >>= k') := Relates.look hk

theorem look_same {k : GenState → Gen β} (hsame : ∀ s s', s.Concurs s' → k s' = k s)
    (hk : ∀ s, Match p (k s) (k s)) : Match p (get >>= k) (get >>= k) :=
  Relates.look_same (fun s s' h => hsame s s' h.concurs) hk

theorem modifyFrames {g g' : Frames → Frames} (h : ∀ fs fs' : Frames, fs'.unindexed = fs.unindexed →
    (g' fs').unindexed = (g fs).unindexed) : Match p (Gen.modifyFrames g) (Gen.modifyFrames g') :=
  Relates.modify fun _ _ hs => { hs with frames := h _ _ hs.frames }

theorem modifyFrame {id : FrameId} (hg : ∀ f, (g f).unindexed = g f.unindexed) :
    Match p (Gen.modifyFrames (·.modify id g)) (Gen.modifyFrames (·.modify id g)) :=
  modifyFrames fun _ _ h => Frames.modify_congr h hg

theorem checks : Checks fun {_} m => Match p m m where
  pure := pure
  incomplete := throw _
  throw _ := throw _
  bind := bind
  look hsame := Relates.look_same fun s s' h => hsame s s' h.concurs h.diagnostics
  diagnose _ := Relates.modify fun _ _ hs => { hs with diagnostics := rfl }
  declare _ _ _ := modifyFrame fun _ => rfl
  park _ _ _ _ _ := modifyFrames fun fs fs' h => by
    simp only [Diagnostics.park, Frames.unindexed_setParked]
    rw [← Frames.parked_unindexed fs', h, Frames.parked_unindexed]

theorem records : Records fun {_} m => Match p m m where
  toJudges := checks.judge
  symbols g := Relates.modifyGet fun _ _ hs => ⟨congrArg (fun symbols => (g symbols).1) hs.symbols,
    { hs with symbols := congrArg (fun symbols => (g symbols).2) hs.symbols }⟩

/-! ### Output -/

theorem emit (i j : Instr) : Match p (Gen.emit i) (Gen.emit j) := by
  intro s s' hs
  rw [run_emit i hs.stop.1, run_emit j hs.stop.2]
  exact .inr (.inr ⟨rfl, { hs with }⟩)

theorem emit_pure (i : Instr) : Match p (Gen.emit i) (Pure.pure ()) := by
  intro s s' hs
  rw [run_emit i hs.stop.1]
  exact .inr (.inr ⟨rfl, { hs with }⟩)

theorem pure_emit (i : Instr) : Match p (Pure.pure ()) (Gen.emit i) := by
  intro s s' hs
  rw [run_emit i hs.stop.2]
  exact .inr (.inr ⟨rfl, { hs with }⟩)

theorem of_styled {q : Bool → Prop} (hp : ∀ first, q first → p first)
    (h : Styled (fun {_} m => Match p m m) q m m') : Match p m m' := by
  induction h with
  | same hm => exact hm
  | bind _ _ ihm ihk => exact ihm.bind ihk
  | emit _ _ => exact emit _ _
  | look hk hk' _ ih => exact look fun s s' hs => hk' s s' hs.concurs ▸ ih s
  | more _ => exact emit_pure _
  | less _ => exact pure_emit _
  | lacks hq _ => exact fun _ _ _ => .inl ⟨_, rfl, rfl, hp _ hq⟩
  | lacked hq _ => exact fun _ _ _ => .inr (.inl ⟨_, rfl, rfl, hp _ hq⟩)

theorem retract (i j : Nat) : Match p (Gen.retract i) (Gen.retract j) :=
  Relates.modify fun _ _ hs => { hs with }

/-- References are taken back one by one, each with its own number. -/
theorem takeBack (name : Value) {refs refs' : List IvarRef}
    (h : refs'.map IvarRef.unindexed = refs.map IvarRef.unindexed) :
    Match p (Check.takeBack name refs) (Check.takeBack name refs') := by
  induction refs generalizing refs' with
  | nil =>
    obtain rfl := List.map_eq_nil_iff.1 h
    exact pure ()
  | cons ref rest ih =>
    obtain ⟨ref', rest', rfl, href, hrest⟩ := List.map_eq_cons_iff.1 h
    have hlocation := congrArg IvarRef.location href
    change ref'.location = ref.location at hlocation
    rw [Check.takeBack, Check.takeBack, hlocation]
    refine (retract _ _).bind fun _ => (checks.warns _).bind fun on => ?_
    split
    · exact Match.bind (checks.warning _ _) fun _ => ih hrest
    · exact ih hrest

theorem hiddenBy (frame : FrameId) (name : Value) :
    Match p (Check.hiddenBy frame name) (Check.hiddenBy frame name) := by
  refine (checks.key name).bind fun key => look fun s s' hs => ?_
  have hsymbol : Check.hiddenSymbol s' key = Check.hiddenSymbol s key := by
    simp only [Check.hiddenSymbol, Check.predefined?, hs.symbols, hs.predefined]
  have hbesides : Match p (Check.hiddenBesides s frame name key)
      (Check.hiddenBesides s' frame name key) := by
    unfold Check.hiddenBesides
    rw [hsymbol, hs.concurs.ivar]
    split
    · exact pure _
    split
    · exact pure _
    · refine Match.bind (modifyFrames fun fs fs' h => ?_) fun _ =>
        (takeBack name ?_).bind fun _ => pure _
      · rw [Frames.unindexed_dropIvarRefs, Frames.unindexed_dropIvarRefs, h]
      · rw [← Frames.ivarRefs_unindexed, hs.frames, Frames.ivarRefs_unindexed]
  rw [hs.concurs.lookup, hs.concurs.root]
  cases s.frames.lookup frame key with
  | none => exact hbesides
  | some v =>
    dsimp only
    split
    · exact Match.bind (modifyFrame fun _ => rfl) fun _ => hbesides
    · cases v.kind.description? with
      | none => exact hbesides
      | some description => exact pure _

/-! ### Frames -/

theorem setContext (g : Context → Context) :
    Match p (Gen.setContext id g) (Gen.setContext id g) := modifyFrame fun _ => rfl

theorem newFrame (f : Frame) : Match p (Gen.newFrame f) (Gen.newFrame f) := by
  refine Relates.modifyGet fun s s' hs => ?_
  obtain ⟨hid, hframes⟩ := Frames.new_congr hs.frames f
  exact ⟨hid, { hs with frames := hframes }⟩

theorem addIvarRef (key : Key) (name : Value) (i j : Nat)
    (location : Option Location) :
    Match p (Gen.modifyFrames (·.addIvarRefs id key name [⟨i, location⟩]))
      (Gen.modifyFrames (·.addIvarRefs id key name [⟨j, location⟩])) :=
  modifyFrames fun fs fs' h => by
    rw [Frames.unindexed_addIvarRefs, Frames.unindexed_addIvarRefs, h]
    rfl

theorem takeTemp : Match p (Message.takeTemp id) (Message.takeTemp id) := by
  refine Relates.modifyGet fun s s' hs => ?_
  obtain ⟨hlevel, hframes⟩ :=
    Frames.takeTemp_congr hs.frames (fun _ => rfl) (fun _ _ => rfl) id
  exact ⟨congrArg tempName hlevel, { hs with frames := hframes }⟩

theorem dropTemp : Match p (Message.dropTemp id) (Message.dropTemp id) := by
  refine modifyFrames fun fs fs' h => ?_
  rw [Frames.varFrame_congr h fun _ => rfl]
  exact Frames.modify_congr h fun _ => rfl

theorem settle (frame : FrameId) : Match p (Gen.settle frame) (Gen.settle frame) := by
  intro s s' hs
  have hsettle (fs : Frames) : s.diagnostics.settle s.symbols fs.unindexed frame =
      ((s.diagnostics.settle s.symbols fs frame).1.unindexed,
        (s.diagnostics.settle s.symbols fs frame).2) := by
    rw [Diagnostics.settle, Diagnostics.settleAll_unindexed, Frames.parked_unindexed]
    rfl
  have hsame := hsettle s'.frames
  rw [hs.frames, hsettle] at hsame
  obtain ⟨hframes, hrest⟩ := Prod.ext_iff.1 hsame
  dsimp only at hframes hrest
  rw [run_settle, run_settle]
  refine .inr (.inr ⟨?_, { hs with diagnostics := ?_, frames := ?_ }⟩)
  · simp only [hs.diagnostics, hs.symbols, ← hrest]
  · simp only [GenState.settled, hs.diagnostics, hs.symbols, ← hrest]
  · simp only [GenState.settled, hs.diagnostics, hs.symbols, ← hframes]

end Match

/-! ### Programs -/

/-- Steps that do the same in every style, as a law. -/
def peerLaw (p : Bool → Prop) : Law where
  Allows _ {_} m := Match p m m
  Admits _ := True
  admits_part _ _ := trivial
  admits_item _ _ _ := trivial
  judges _ := Match.checks.judge
  hiddenBy _ _ := Match.hiddenBy _ _
  emit _ _ _ := Match.emit _ _
  shifted sh _ _ hm := Match.checks.shifted Match.look_same sh (fun _ => Match.emit _ _)
    (fun _ => Match.emit _ _) hm
  style _ hk := Match.look fun s s' hs => Match.of_styled hs.methodNames (hk s s' hs.concurs)
  newBuffer _ := Relates.modifyGet fun _ _ hs =>
    ⟨hs.buffers, { hs with buffers := congrArg (· + 1) hs.buffers }⟩
  setContext _ _ _ _ := Match.setContext _ _
  assigning id v _ hm := Match.checks.assigning Match.look_same Match.setContext id v hm
  undeclare _ _ _ := Match.modifyFrame fun _ => rfl
  selfAssigned _ _ := Match.modifyFrame fun _ => rfl
  ivarReference _ _ _ _ _ := (Match.look fun _ _ _ =>
    (Match.addIvarRef _ _ _ _ _ _).bind fun _ => Match.emit _ _).bind fun _ => Match.emit _ _

theorem peerLaw_declares (p : Bool → Prop) : (peerLaw p).Declares where
  setMethods _ _ := Relates.modify fun _ _ hs => { hs with methods := rfl }
  newBody _ _ _ _ _ _ _ hk :=
    Match.bind (Match.newFrame _) fun id => (hk id).allows fun h => h
  optional _ _ := Match.modifyFrame fun _ => rfl
  records _ := Match.records

theorem peerLaw_runs (p : Bool → Prop) : (peerLaw p).Runs where
  anyFrame h := h
  instr _ _ _ := Match.emit _ _
  within {_ type role} _ _ hbody := by
    refine Match.bind (Relates.modify fun s s' hs => { hs with ancestry := ?_ }) fun _ =>
      Match.bind hbody fun _ => Relates.modify fun s s' hs => { hs with ancestry := ?_ }
    · exact congrArg (Ancestry.push type role) hs.ancestry
    · exact congrArg (Ancestry.pop type) hs.ancestry
  newFrame _ _ _ _ _ _ := Match.newFrame _
  takeTemp _ id := Match.takeTemp id
  dropTemp _ id := Match.dropTemp id
  unpark _ _ := Match.modifyFrames fun fs fs' h => by
    rw [Frames.unindexed_setParked, Frames.unindexed_setParked, h]
  declares := (peerLaw_declares p).declarations
  opens := {
    settle := fun _ => Match.settle
    copyIvarRefs := fun _ _ => Match.modifyFrames fun fs fs' h => by
      rw [Frames.unindexed_copyIvarRefs, Frames.unindexed_copyIvarRefs, h]
    recordMethod := fun _ => Match.records.methods.recordMethod }

end ObjectiveJ
