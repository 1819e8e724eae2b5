import ObjectiveJ.Generate.Check
import ObjectiveJ.Proofs.Expression.Denotes
import ObjectiveJ.Proofs.Run

/-!
# Checks at file level

Without a scope of its own, the code of a file is generated in the one frame of the whole program.
There a name is neither a variable of a function nor an instance variable, so it is written as it
is, and checked. The checks report issues and declare globals, and write nothing (`Gen.Quiet`). They
fail only if a name clashes with a class, a protocol or a type definition.
-/

namespace ObjectiveJ

variable {t : Tree}

/-- There are no classes, protocols and type definitions. -/
structure Symbols.IsFresh (s : Symbols) : Prop where
  classes : ∀ key, s.lookupClass key = none
  protocols : ∀ key, s.lookupProtocol key = none
  typedefs : ∀ key, s.typedefs.get? key = none

/-- The frame of the whole program, which has used no receiver temps. -/
structure Frame.IsRoot (f : Frame) : Prop where
  kind : f.kind = .global
  parent : f.parent = none
  maxLevel : f.maxLevel = 0
  parked : ∀ p ∈ f.parked, p.name.isSome = true

/-- The only frame is that of the whole program, every instruction can be written, and there are no
errors unless names can clash. -/
structure AtFileLevel (symbols : Symbols) (s : GenState) : Prop where
  stop : s.settings.stop = none
  errors : symbols.IsFresh → s.diagnostics.hasErrors = false
  symbols : s.symbols = symbols
  frames : ∃ f, s.frames.store = #[f] ∧ f.IsRoot

namespace Frames

variable {fs : Frames} {f : Frame}

theorem chain_root (h : fs.store = #[f]) (hf : f.IsRoot) : fs.chain 0 = [(0, f)] := by
  have hframe : fs.frame? 0 = some f := by simp [frame?, h]
  rw [chain, hframe]
  simp [hf.parent]

theorem isLocal_root (h : fs.store = #[f]) (hf : f.IsRoot) : fs.isLocal 0 = false := by
  simp [isLocal, chain_root h hf, hf.kind, FrameKind.isLocal]

theorem root_root (h : fs.store = #[f]) (hf : f.IsRoot) : fs.root 0 = 0 := by
  simp [root, chain_root h hf]

theorem varFrame_root (h : fs.store = #[f]) (hf : f.IsRoot) : fs.varFrame 0 = 0 := by
  simp [varFrame, chain_root h hf, hf.kind, FrameKind.ownsVars, FrameKind.isLocal, root_root h hf]

theorem modify_root (h : fs.store = #[f]) (g : Frame → Frame) :
    (fs.modify 0 g).store = #[g f] := by
  simp [modify, h]

end Frames

theorem Diagnostics.line?_isSome (ht : t.IsPlaced) (d : Diagnostics) :
    (d.line? (.ofLocation t.location)).isSome = true := by
  cases hl : t.location with
  | none => simp [Value.ofLocation, line?]
  | some l =>
    obtain ⟨file, line, column, rfl⟩ := ht l hl
    cases hlines : d.lines with
    | none => simp [Value.ofLocation, line?, hlines]
    | some lines =>
      simp [Value.ofLocation, line?, hlines, Location.lineIn?, Value.whole?, Json.whole?]

theorem Tree.IsPlaced.key?_isSome (ht : t.IsPlaced) :
    (Value.ofLocation t.location).key?.isSome = true := by
  cases hl : t.location with
  | none => simp [Value.ofLocation, Value.key?, Json.key?]
  | some l =>
    obtain ⟨file, line, column, rfl⟩ := ht l hl
    simp [Value.ofLocation, Value.key?, Location.key?, Json.key?]

theorem Diagnostics.make?_placed (ht : t.IsPlaced) (d : Diagnostics) (severity : Severity)
    (message : String) :
    ∃ i, d.make? severity (Value.tree t).anchor (.str message) = some i ∧ i.key?.isSome = true ∧
      i.severity = severity := by
  obtain ⟨line, hline⟩ := Option.isSome_iff_exists.1 (d.line?_isSome ht)
  obtain ⟨key, hkey⟩ := Option.isSome_iff_exists.1 ht.key?_isSome
  refine ⟨⟨severity, .str message, .ofLocation t.location, line, []⟩, ?_, ?_, rfl⟩
  · simp [make?, Value.anchor, hline]
  · simp [Issue.key?, Value.key?, Json.key?, hkey]

theorem Diagnostics.record_ne_unkeyed {d : Diagnostics} {i : Issue} (h : i.key?.isSome = true) :
    (d.record i).1 ≠ .unkeyed := by
  obtain ⟨key, hkey⟩ := Option.isSome_iff_exists.1 h
  simp only [record, hkey]
  split
  · simp
  · split <;> simp

theorem Diagnostics.hasErrors_record {d : Diagnostics} {i : Issue} (h : d.hasErrors = false)
    (hi : i.isError = false) : (d.record i).2.hasErrors = false := by
  simp only [record]
  split
  · exact h
  · split
    · exact h
    · split
      · exact h
      · rw [hasErrors, list] at h
        simp only [hasErrors, list, List.map_append, List.any_append, h, Bool.false_or]
        simpa using hi

namespace Gen

variable {symbols : Symbols} {α β : Type}

/-- A step at file level that writes nothing, and fails only if there are classes, protocols or
type definitions. -/
def Quiet (symbols : Symbols) (m : Gen α) : Prop :=
  ∀ s, AtFileLevel symbols s →
    wp m (fun _ t => AtFileLevel symbols t ∧ t.trace = s.trace) (fun _ _ => ¬ symbols.IsFresh) s

namespace Quiet

variable {message : String} {about : Value}

theorem pure (a : α) : Quiet symbols (pure a : Gen α) := fun _ hs => ⟨hs, rfl⟩

theorem bind {m : Gen α} {f : α → Gen β} (hm : Quiet symbols m) (hf : ∀ a, Quiet symbols (f a)) :
    Quiet symbols (m >>= f) := by
  intro s hs
  rw [wp_bind]
  refine (hm s hs).imp fun a t ht => ?_
  refine (hf a t ht.1).imp fun b u hu => ?_
  exact ⟨hu.1, hu.2.trans ht.2⟩

theorem discard {m : Gen α} (hm : Quiet symbols m) : Quiet symbols (discard m) := by
  intro s hs
  rw [wp_discard]
  exact hm s hs

theorem ofOption {o : Option α} (h : o.isSome = true ∨ ¬ symbols.IsFresh) :
    Quiet symbols (ofOption o) := by
  intro s hs
  cases o with
  | none => exact h.resolve_left (by simp)
  | some a => exact ⟨hs, rfl⟩

theorem get : Quiet symbols (get : Gen GenState) := fun _ hs => ⟨hs, rfl⟩

theorem modifyRoot {g : Frame → Frame} (hg : ∀ f : Frame, f.IsRoot → (g f).IsRoot) :
    Quiet symbols (modifyFrames (·.modify 0 g)) := by
  intro s hs
  obtain ⟨f, hstore, hf⟩ := hs.frames
  exact ⟨⟨hs.stop, hs.errors, hs.symbols, g f, Frames.modify_root hstore g, hg f hf⟩, rfl⟩

theorem setContext (g : Context → Context) : Quiet symbols (setContext 0 g) :=
  modifyRoot fun _ hf => ⟨hf.kind, hf.parent, hf.maxLevel, hf.parked⟩

theorem declare (name : Key) (v : Variable) : Quiet symbols (declare 0 name v) :=
  modifyRoot fun _ hf => ⟨hf.kind, hf.parent, hf.maxLevel, hf.parked⟩

theorem report {severity : Severity}
    (h : (severity = .warning ∧ ∃ t : Tree, about = .tree t ∧ t.IsPlaced) ∨ ¬ symbols.IsFresh) :
    Quiet symbols (report severity about message) := by
  intro s hs
  unfold Gen.report
  simp only [wp_bind, wp_get]
  rcases h with ⟨rfl, t, rfl, ht⟩ | hfresh
  · obtain ⟨i, hi, hkey, hseverity⟩ := s.diagnostics.make?_placed ht .warning message
    have hchanged : AtFileLevel symbols { s with diagnostics := (s.diagnostics.record i).2 } :=
      ⟨hs.stop, fun hfresh =>
        Diagnostics.hasErrors_record (hs.errors hfresh) (by simp [Issue.isError, hseverity]),
        hs.symbols, hs.frames⟩
    have hrecord := Diagnostics.record_ne_unkeyed (d := s.diagnostics) hkey
    simp only [hi, Gen.ofOption, wp_pure, wp_modify]
    split
    · exact ⟨hchanged, rfl⟩
    · exact ⟨hchanged, rfl⟩
    · contradiction
  · refine (Quiet.ofOption (.inr hfresh) s hs).imp fun i t ht => ?_
    have hchanged : ∀ d, AtFileLevel symbols { t with diagnostics := d } := fun _ =>
      ⟨ht.1.stop, fun h => absurd h hfresh, ht.1.symbols, ht.1.frames⟩
    simp only [wp_modify]
    split
    · exact ⟨hchanged _, ht.2⟩
    · exact ⟨hchanged _, ht.2⟩
    · exact hfresh

theorem warning (ht : t.IsPlaced) : Quiet symbols (warning (.tree t) message) :=
  (report (.inl ⟨rfl, t, rfl, ht⟩)).discard

theorem error (h : ¬ symbols.IsFresh) : Quiet symbols (error about message) := by
  unfold Gen.error
  refine (report (.inr h)).bind fun recorded => ?_
  split
  · refine get.bind fun s => (ofOption (.inr h)).bind fun isOver => ?_
    split
    · exact fun _ _ => h
    · exact pure _
  · exact pure _

theorem note (h : ¬ symbols.IsFresh) : Quiet symbols (note about message) := by
  unfold Gen.note
  refine get.bind fun s => (ofOption (.inr h)).bind fun d => ?_
  exact fun s hs => ⟨⟨hs.stop, fun h' => absurd h' h, hs.symbols, hs.frames⟩, rfl⟩

theorem park (ht : t.IsPlaced) {name : Key} {rule : DeferralRule} :
    Quiet symbols (park 0 (.tree t) message name rule) := by
  unfold Gen.park
  refine (report (.inl ⟨rfl, t, rfl, ht⟩)).bind fun recorded => ?_
  split
  · exact pure _
  · rename_i issue
    refine bind (fun s hs => ?_) fun _ => pure _
    obtain ⟨f, hstore, hf⟩ := hs.frames
    let parked := f.parked ++ [⟨issue, .str message, 0, some name, rule⟩]
    have hparked : (Diagnostics.park s.frames 0 issue (.str message) (some name) rule).store =
        #[{ f with parked }] := by
      simp only [Diagnostics.park, Frames.setParked, Frames.root_root hstore hf,
        Frames.modify_root hstore]
      simp [parked, Frames.parked, Frames.root_root hstore hf, Frames.frame?, hstore]
    rw [modifyFrames, wp_modify]
    refine ⟨⟨hs.stop, hs.errors, hs.symbols, _, hparked, hf.kind, hf.parent, hf.maxLevel, ?_⟩, rfl⟩
    intro p hp
    rcases List.mem_append.1 hp with hp | hp
    · exact hf.parked p hp
    · obtain rfl := List.mem_singleton.1 hp
      rfl

end Quiet

end Gen

namespace Check

open Gen

variable {symbols : Symbols} {t : Tree} {name : String}

theorem quiet_conflict (hfresh : ¬ symbols.IsFresh) (identifier shown : Value) (p : Previous) :
    Quiet symbols (conflict t identifier shown p) := by
  refine (Quiet.error hfresh).bind fun _ => ?_
  split
  · exact (Quiet.note hfresh).bind fun _ => Quiet.pure _
  · exact Quiet.pure _

/-- A name that is new to the frame may be declared, unless it clashes with a symbol. -/
theorem quiet_isUnique {s : GenState} (hs : AtFileLevel symbols s) (htype : t.type = .identifier)
    (hname : t.get? "name" = some (.str name)) (hnew : s.frames.lookup 0 (.text name) = none)
    (hpredefined : predefined? s (.text name) = none) :
    wp (isUnique 0 t (.tree t)) (fun _ t => AtFileLevel symbols t ∧ t.trace = s.trace)
      (fun _ _ => ¬ symbols.IsFresh) s := by
  obtain ⟨f, hstore, hf⟩ := hs.frames
  have hglobal : s.frames.globalVar 0 (.text name) = none := by
    simp only [Frames.lookup, Frames.chain_root hstore hf, Frames.lookupIn] at hnew
    split at hnew
    · cases hnew
    · rename_i hvar
      simp [Frames.globalVar, Frames.root_root hstore hf, Frames.localVar, Frames.frame?, hstore,
        hvar]
  unfold isUnique isUniqueName
  simp only [part, Value.part?, hname, Gen.ofOption, Gen.key, Value.key?, Json.key?,
    wp_bind, wp_pure, wp_get, htype, hglobal, hpredefined]
  rw [if_neg (by decide)]
  split
  · rename_i known hknown
    have hfresh : ¬ symbols.IsFresh := fun h => by
      rw [hs.symbols, h.classes] at hknown
      cases hknown
    rw [if_neg (by decide)]
    exact quiet_conflict hfresh _ _ _ s hs
  · split
    · rename_i known hknown
      have hfresh : ¬ symbols.IsFresh := fun h => by
        rw [hs.symbols, h.protocols] at hknown
        cases hknown
      rw [if_neg (by decide)]
      exact quiet_conflict hfresh _ _ _ s hs
    · split
      · rename_i known hknown
        have hfresh : ¬ symbols.IsFresh := fun h => by
          rw [hs.symbols, h.typedefs] at hknown
          cases hknown
        rw [if_neg (by decide)]
        exact quiet_conflict hfresh _ _ _ s hs
      · exact ⟨hs, rfl⟩

theorem quiet_assignment (ht : t.IsPlaced) (htype : t.type = .identifier)
    (hname : t.get? "name" = some (.str name)) : Quiet symbols (assignment 0 t) := by
  intro s hs
  obtain ⟨f, hstore, hf⟩ := hs.frames
  unfold assignment
  simp only [wp_bind, wp_get]
  split
  · exact ⟨hs, rfl⟩
  · simp only [field, hname, Gen.ofOption, wp_bind, wp_pure, Gen.key, Value.key?, Json.key?]
    split
    · split
      · exact ((Quiet.warning ht).bind fun _ => Quiet.pure _) s hs
      · exact ⟨hs, rfl⟩
    · rename_i hpredefined
      simp only [createGlobal, Frames.isLocal_root hstore hf, Frames.root_root hstore hf,
        Bool.false_and, Bool.or_false, Bool.false_eq_true, if_false]
      split
      · rename_i hnew
        rw [wp_bind]
        have hunique := quiet_isUnique hs htype hname (Option.isNone_iff_eq_none.1 hnew)
          (Option.eq_none_iff_forall_ne_some.2 fun p hp => hpredefined p hp)
        refine hunique.imp fun isNew u hu => ?_
        split
        · exact ⟨hu.1, hu.2⟩
        · exact (Quiet.declare _ _ u hu.1).imp fun _ w hw => ⟨hw.1, hw.2.trans hu.2⟩
      · exact ⟨hs, rfl⟩

theorem quiet_reference (ht : t.IsPlaced) (hname : t.get? "name" = some (.str name)) :
    Quiet symbols (reference 0 t) := by
  intro s hs
  obtain ⟨f, hstore, hf⟩ := hs.frames
  unfold reference
  simp only [warns, wp_bind, wp_get, wp_pure]
  split
  · exact ⟨hs, rfl⟩
  · simp only [field, hname, Gen.ofOption, wp_bind, wp_pure, Gen.key, Value.key?, Json.key?, wp_get]
    split
    · exact ⟨hs, rfl⟩
    · rw [Frames.varFrame_root hstore hf]
      split
      · refine (Quiet.bind ?_ fun similar => (Quiet.park ht).discard) s hs
        exact Quiet.get.bind fun _ => (Quiet.ofOption (.inl rfl)).bind fun _ => Quiet.pure _
      · exact ((Quiet.pure _).bind fun similar => (Quiet.park ht).discard) s hs

theorem quiet_identifier (ht : t.IsPlaced) (htype : t.type = .identifier)
    (hname : t.get? "name" = some (.str name)) : Quiet symbols (Check.identifier 0 t) := by
  refine Quiet.get.bind fun s => ?_
  split
  · exact quiet_assignment ht htype hname
  · exact quiet_reference ht hname

end Check

end ObjectiveJ
