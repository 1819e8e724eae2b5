import ObjectiveJ.Proofs.Run

/-!
# States that agree

What the generator does next depends on the state, but not on all of it: of the diagnostics only
what is reported depends, and what has been written is not read again. Two states *concur* if they
have in common whatever is looked up: they may differ in the diagnostics, the warnings that wait in
the root frame, the instructions, and the options for how code is written. They *agree* if they
differ in nothing but the diagnostics and the warnings that wait.
-/

namespace ObjectiveJ

variable {fs : Frames}

/-- A frame without the warnings that wait in it. -/
def Frame.unparked (f : Frame) : Frame := { f with parked := [] }

/-- A frame without the warnings that wait in it and without the instructions that it remembers. -/
def Frame.bare (f : Frame) : Frame := { f with parked := [], ivarRefs := {} }

namespace Frames

variable {id : FrameId}

theorem frame?_modify (id' : FrameId) (g : Frame → Frame) :
    (fs.modify id' g).frame? id = if id' = id then (fs.frame? id).map g else fs.frame? id := by
  simp [frame?, modify, Array.getElem?_modify]

theorem frame?_new (f : Frame) : (fs.new f).2.frame? id =
    if id = fs.store.size then some f else fs.frame? id := by
  simp only [Frames.new, frame?, Array.getElem?_push]

/-- Frames of which something is left out. -/
def mapped (h : Frame → Frame) (fs : Frames) : Frames := ⟨fs.store.map h⟩

abbrev unparked (fs : Frames) : Frames := fs.mapped Frame.unparked

abbrev bare (fs : Frames) : Frames := fs.mapped Frame.bare

@[simp] theorem frame?_mapped (h : Frame → Frame) (fs : Frames) (id : FrameId) :
    (fs.mapped h).frame? id = (fs.frame? id).map h := by
  simp [frame?, mapped]

theorem mapped_modify {h g g' : Frame → Frame} (hg : ∀ f, h (g f) = g' (h f)) :
    (fs.modify id g).mapped h = (fs.mapped h).modify id g' :=
  congrArg Frames.mk (map_modify hg ..)

theorem bare_mapped {h : Frame → Frame} (hh : ∀ f, (h f).bare = f.bare) (fs : Frames) :
    (fs.mapped h).bare = fs.bare := by
  simp only [mapped, Array.map_map, Function.comp_def, hh]

theorem bare_unparked : ∀ fs : Frames, fs.unparked.bare = fs.bare := bare_mapped fun _ => rfl

variable (fs : Frames) (id : FrameId) (name : Key)

/-- Frames are changed, but not what they are inside of. -/
theorem chain_map {gs : Frames} {h : FrameId → Frame → Frame}
    (hframe : ∀ i, gs.frame? i = (fs.frame? i).map (h i))
    (hparent : ∀ i f, (h i f).parent = f.parent) :
    gs.chain id = (fs.chain id).map fun p => (p.1, h p.1 p.2) := by
  induction id using Nat.strongRecOn with
  | ind id ih =>
    rw [chain, chain.eq_1 fs id, hframe]
    cases fs.frame? id with
    | none => rfl
    | some f =>
      simp only [Option.map_some, hparent, List.map_cons]
      cases f.parent with
      | none => rfl
      | some up =>
        by_cases hup : up < id
        · simp only [hup, if_true, ih up hup]
        · simp only [hup, if_false, List.map_nil]

theorem chain_bare : fs.bare.chain id = (fs.chain id).map fun p => (p.1, p.2.bare) :=
  fs.chain_map id (fun i => fs.frame?_mapped _ i) fun _ _ => rfl

@[simp] theorem root_bare : fs.bare.root id = fs.root id := by
  simp only [root, chain_bare, List.getLast?_map, Option.map_map]
  rfl

@[simp] theorem isLocal_bare : fs.bare.isLocal id = fs.isLocal id := by
  simp only [isLocal, chain_bare, List.any_map]
  rfl

@[simp] theorem currentClass_bare : fs.bare.currentClass id = fs.currentClass id := by
  simp only [currentClass, chain_bare, List.findSome?_map]
  rfl

theorem currentMethod_bare :
    fs.bare.currentMethod id = (fs.currentMethod id).map fun p => (p.1, p.2.bare) := by
  simp only [currentMethod, chain_bare, List.find?_map]
  rfl

@[simp] theorem isSome_currentMethod_bare :
    (fs.bare.currentMethod id).isSome = (fs.currentMethod id).isSome := by
  rw [currentMethod_bare, Option.isSome_map]

@[simp] theorem currentMarker_bare : fs.bare.currentMarker id = fs.currentMarker id := by
  simp only [currentMarker, currentMethod_bare, Option.map_map]
  rfl

@[simp] theorem varFrame_bare : fs.bare.varFrame id = fs.varFrame id := by
  have hfind : (fs.bare.chain id).find? (·.2.kind.ownsVars) =
      ((fs.chain id).find? (·.2.kind.ownsVars)).map fun p => (p.1, p.2.bare) := by
    rw [chain_bare, List.find?_map]
    rfl
  rw [varFrame, varFrame, hfind, root_bare]
  cases (fs.chain id).find? (·.2.kind.ownsVars) <;> rfl

@[simp] theorem superRef_bare (marker : Value) :
    fs.bare.superRef id marker = fs.superRef id marker := by
  have hfind : (fs.bare.chain id).find? (·.2.classId.isSome) =
      ((fs.chain id).find? (·.2.classId.isSome)).map fun p => (p.1, p.2.bare) := by
    rw [chain_bare, List.find?_map]
    rfl
  rw [superRef, superRef, hfind]
  cases (fs.chain id).find? (·.2.classId.isSome) <;> rfl

theorem lookupIn_map {h : FrameId × Frame → FrameId × Frame} (hvars : ∀ p, (h p).2.vars = p.2.vars)
    (hkind : ∀ p, (h p).2.kind = p.2.kind) (stopAtMethod : Bool)
    (frames : List (FrameId × Frame)) :
    lookupIn name stopAtMethod (frames.map h) = lookupIn name stopAtMethod frames := by
  induction frames with
  | nil => rfl
  | cons p rest ih => simp only [List.map_cons, lookupIn, ih, hvars, hkind]

@[simp] theorem lookup_bare : fs.bare.lookup id name = fs.lookup id name := by
  rw [lookup, chain_bare]
  exact lookupIn_map name (h := fun p => (p.1, p.2.bare)) (fun _ => rfl) (fun _ => rfl) false _

@[simp] theorem lookupInMethod_bare :
    fs.bare.lookupInMethod id name = fs.lookupInMethod id name := by
  rw [lookupInMethod, chain_bare]
  exact lookupIn_map name (h := fun p => (p.1, p.2.bare)) (fun _ => rfl) (fun _ => rfl) true _

@[simp] theorem localVar_bare : fs.bare.localVar id name = fs.localVar id name := by
  rw [localVar, localVar, frame?_mapped]
  cases fs.frame? id <;> rfl

@[simp] theorem globalVar_bare : fs.bare.globalVar id name = fs.globalVar id name := by
  rw [globalVar, globalVar, root_bare, localVar_bare]

@[simp] theorem ivar_bare (symbols : Symbols) :
    fs.bare.ivar symbols id name = fs.ivar symbols id name := by
  have hnone : (fs.bare.currentMethod id).isNone = (fs.currentMethod id).isNone := by
    rw [currentMethod_bare, Option.isNone_map]
  simp only [ivar, hnone, currentClass_bare]

@[simp] theorem context_bare : fs.bare.context id = fs.context id := by
  rw [context, context, frame?_mapped]
  cases fs.frame? id <;> rfl

/-! ### Frames that are the same but for what is left out -/

section Same

variable {h : Frame → Frame} {fs fs' : Frames} {id : FrameId}

theorem mapped_copyIvarRefs {r : List IvarRef → List IvarRef}
    (hadd : ∀ (fs : Frames) id key name refs, (fs.addIvarRefs id key name refs).mapped h =
      (fs.mapped h).addIvarRefs id key name (r refs))
    (hhanded : ∀ f, (h f).handed? =
      f.handed?.map fun p => (p.1, p.2.map fun e => (e.1, e.2.1, r e.2.2))) :
    (fs.copyIvarRefs id).mapped h = (fs.mapped h).copyIvarRefs id := by
  have hall (up : FrameId) (entries : List (Key × Value × List IvarRef)) (fs : Frames) :
      (fs.addAll up entries).mapped h =
        (fs.mapped h).addAll up (entries.map fun e => (e.1, e.2.1, r e.2.2)) := by
    induction entries generalizing fs with
    | nil => rfl
    | cons e rest ih => exact (ih _).trans (congrArg (addAll · up _) (hadd ..))
  rw [copyIvarRefs_eq, copyIvarRefs_eq, frame?_mapped]
  cases fs.frame? id with
  | none => rfl
  | some f =>
    rw [Option.map_some, Option.bind_some, Option.bind_some, hhanded]
    cases f.handed? with
    | none => rfl
    | some p => exact hall p.1 p.2 fs

variable (hfs : fs'.mapped h = fs.mapped h)

include hfs

theorem modify_congr {g : Frame → Frame} (hg : ∀ f, h (g f) = g (h f)) :
    (fs'.modify id g).mapped h = (fs.modify id g).mapped h := by
  rw [mapped_modify hg, mapped_modify hg, hfs]

theorem new_congr (f : Frame) :
    (fs'.new f).1 = (fs.new f).1 ∧ (fs'.new f).2.mapped h = (fs.new f).2.mapped h := by
  have hstore : fs'.store.map h = fs.store.map h := congrArg Frames.store hfs
  have hsize : fs'.store.size = fs.store.size := by simpa using congrArg Array.size hstore
  exact ⟨hsize, by simp only [new, mapped, Array.map_push, hstore]⟩

variable (hh : ∀ f, (h f).bare = f.bare)

include hh

theorem varFrame_congr : fs'.varFrame id = fs.varFrame id := by
  rw [← varFrame_bare, ← bare_mapped hh, hfs, bare_mapped hh, varFrame_bare]

theorem takeTemp_congr (hg : ∀ (level : Int) f,
      h { f with level, maxLevel := max f.maxLevel level } =
        { h f with level, maxLevel := max (h f).maxLevel level }) (id : FrameId) :
    (fs'.takeTemp (fs'.varFrame id)).1 = (fs.takeTemp (fs.varFrame id)).1 ∧
      (fs'.takeTemp (fs'.varFrame id)).2.mapped h =
        (fs.takeTemp (fs.varFrame id)).2.mapped h := by
  have hlevel (f : Frame) : (h f).level = f.level := by
    have hbare := congrArg Frame.level (hh f)
    exact hbare
  have hlevels (id : FrameId) :
      (fs'.frame? id).map (·.level) = (fs.frame? id).map (·.level) := by
    have hframe := congrArg (fun gs => (gs.frame? id).map (·.level)) hfs
    simpa only [frame?_mapped, Option.map_map, Function.comp_def, hlevel] using hframe
  simp only [takeTemp, varFrame_congr hfs hh, hlevels]
  exact ⟨trivial, modify_congr hfs (hg _)⟩

end Same

end Frames

theorem Diagnostics.isUnfounded_of_bare {fs' : Frames} (h : fs'.bare = fs.bare) (symbols : Symbols)
    (frame : FrameId) (name : Key) (rule : DeferralRule) :
    isUnfounded fs' symbols frame name rule = isUnfounded fs symbols frame name rule := by
  cases rule with
  | implicitGlobal =>
    rw [isUnfounded, isUnfounded, ← Frames.localVar_bare, h, Frames.localVar_bare]
  | unknownIdentifier classesCount =>
    rw [isUnfounded, isUnfounded, ← Frames.localVar_bare, ← Frames.globalVar_bare, h,
      Frames.localVar_bare, Frames.globalVar_bare]

/-- States that have in common whatever is looked up. -/
structure GenState.Concurs (s s' : GenState) : Prop where
  objjScope : s'.settings.objjScope = s.settings.objjScope
  source : s'.settings.source = s.settings.source
  predefined : s'.settings.predefined = s.settings.predefined
  symbols : s'.symbols = s.symbols
  bare : s'.frames.bare = s.frames.bare
  ancestry : s'.ancestry = s.ancestry
  buffers : s'.buffers = s.buffers
  methods : s'.methods = s.methods

namespace GenState.Concurs

variable {s s' : GenState} (h : s.Concurs s') (id : FrameId) (name : Key)

theorem refl (s : GenState) : s.Concurs s := ⟨rfl, rfl, rfl, rfl, rfl, rfl, rfl, rfl⟩

include h

theorem isLocal : s'.frames.isLocal id = s.frames.isLocal id := by
  rw [← Frames.isLocal_bare, h.bare, Frames.isLocal_bare]

theorem methodOwner? :
    s'.frames.methodOwner? id = s.frames.methodOwner? id := by
  have howner (fs : Frames) : fs.bare.methodOwner? id = fs.methodOwner? id := by
    rw [Frames.methodOwner?, Frames.frame?_mapped, Option.map_map]
    rfl
  rw [← howner, h.bare, howner]

theorem root : s'.frames.root id = s.frames.root id := by
  rw [← Frames.root_bare, h.bare, Frames.root_bare]

theorem varFrame : s'.frames.varFrame id = s.frames.varFrame id := by
  rw [← Frames.varFrame_bare, h.bare, Frames.varFrame_bare]

theorem context : s'.frames.context id = s.frames.context id := by
  rw [← Frames.context_bare, h.bare, Frames.context_bare]

theorem lookup :
    s'.frames.lookup id name = s.frames.lookup id name := by
  rw [← Frames.lookup_bare, h.bare, Frames.lookup_bare]

theorem lookupInMethod :
    s'.frames.lookupInMethod id name = s.frames.lookupInMethod id name := by
  rw [← Frames.lookupInMethod_bare, h.bare, Frames.lookupInMethod_bare]

theorem localVar :
    s'.frames.localVar id name = s.frames.localVar id name := by
  rw [← Frames.localVar_bare, h.bare, Frames.localVar_bare]

theorem globalVar :
    s'.frames.globalVar id name = s.frames.globalVar id name := by
  rw [← Frames.globalVar_bare, h.bare, Frames.globalVar_bare]

theorem currentMarker :
    s'.frames.currentMarker id = s.frames.currentMarker id := by
  rw [← Frames.currentMarker_bare, h.bare, Frames.currentMarker_bare]

theorem isSome_currentMethod :
    (s'.frames.currentMethod id).isSome = (s.frames.currentMethod id).isSome := by
  rw [← Frames.isSome_currentMethod_bare, h.bare, Frames.isSome_currentMethod_bare]

theorem currentClass : s'.frames.currentClass id = s.frames.currentClass id := by
  rw [← Frames.currentClass_bare, h.bare, Frames.currentClass_bare]

theorem superRef (marker : Value) :
    s'.frames.superRef id marker = s.frames.superRef id marker := by
  rw [← Frames.superRef_bare, h.bare, Frames.superRef_bare]

theorem ivar :
    s'.frames.ivar s'.symbols id name = s.frames.ivar s.symbols id name := by
  rw [← Frames.ivar_bare, h.bare, Frames.ivar_bare, h.symbols]

theorem frame? :
    (s'.frames.frame? id).map Frame.bare = (s.frames.frame? id).map Frame.bare := by
  simpa only [Frames.frame?_mapped] using congrArg (·.frame? id) h.bare

theorem map_frame? {γ : Type} {g : Frame → γ} (hg : ∀ f, g f.bare = g f) :
    (s'.frames.frame? id).map g = (s.frames.frame? id).map g := by
  simpa only [Option.map_map, Function.comp_def, hg] using congrArg (Option.map g) (h.frame? id)

theorem currentMethod :
    (s'.frames.currentMethod id).map (fun p => (p.1, p.2.bare)) =
      (s.frames.currentMethod id).map fun p => (p.1, p.2.bare) := by
  rw [← Frames.currentMethod_bare, h.bare, Frames.currentMethod_bare]

end GenState.Concurs

/-- States that are the same but for the diagnostics and the warnings that wait. -/
structure GenState.Agrees (s s' : GenState) : Prop where
  settings : s'.settings = s.settings
  symbols : s'.symbols = s.symbols
  unparked : s'.frames.unparked = s.frames.unparked
  ancestry : s'.ancestry = s.ancestry
  trace : s'.trace = s.trace
  buffers : s'.buffers = s.buffers
  methods : s'.methods = s.methods

theorem GenState.Agrees.refl (s : GenState) : s.Agrees s := ⟨rfl, rfl, rfl, rfl, rfl, rfl, rfl⟩

theorem GenState.Agrees.concurs {s s' : GenState} (h : s.Agrees s') : s.Concurs s' where
  objjScope := by rw [h.settings]
  source := by rw [h.settings]
  predefined := by rw [h.settings]
  symbols := h.symbols
  bare := by rw [← Frames.bare_unparked, h.unparked, Frames.bare_unparked]
  ancestry := h.ancestry
  buffers := h.buffers
  methods := h.methods

theorem GenState.Agrees.ivarRefs {s s' : GenState} (h : s.Agrees s') (id : FrameId) (name : Key) :
    s'.frames.ivarRefs id name = s.frames.ivarRefs id name := by
  have hrefs (fs : Frames) : fs.unparked.ivarRefs id name = fs.ivarRefs id name := by
    rw [Frames.ivarRefs, Frames.ivarRefs, Frames.frame?_mapped]
    cases fs.frame? id <;> rfl
  rw [← hrefs, h.unparked, hrefs]

end ObjectiveJ
