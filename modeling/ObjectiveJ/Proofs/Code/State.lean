import ObjectiveJ.Proofs.Code.Clear
import ObjectiveJ.Proofs.Code.Positions
import ObjectiveJ.Proofs.Tables.Register
import ObjectiveJ.Proofs.Temps.Scope
import ObjectiveJ.Proofs.Warnings.Silent

/-!
# What stays while code is written

A step that writes code, or looks or checks something, leaves much of the state alone. The buffers
for methods and the settings stay, frames stay what they are, and there are no fewer errors than
before (`GenState.Held`). What is known of a state (`GenState.Sane`) is known of it afterwards:
issues have numbers of their own, and the names that frames keep for the code have nested brackets.
A step of this kind is `Steady`.
-/

namespace ObjectiveJ

open Gen Text

variable {d : Diagnostics} {fs : Frames} {id : FrameId}

/-- What code may show of a frame, and whose methods stand in it. -/
structure Face where
  superRef : Value
  superMetaRef : Value
  classId : Option ClassId
  protocolId : Option ProtocolId
  optionalMethods : Bool

def Frame.face (f : Frame) : Face :=
  ⟨f.superRef, f.superMetaRef, f.classId, f.protocolId, f.optionalMethods⟩

def Frames.face? (fs : Frames) (id : FrameId) : Option Face := (fs.frame? id).map Frame.face

structure ClassDef.Clear (c : ClassDef) : Prop where
  name : c.name.Clear
  ivars : ∀ e ∈ c.ivars.entries, e.2.name.Clear ∧ e.2.type.Clear ∧ e.2.accessors.Clear

/-- What code shows of a frame has nested brackets, and its class is one of those declared since. -/
structure Face.Nests (known : Nat) (face : Face) : Prop where
  superRef : Text.Nests face.superRef.display
  superMetaRef : Text.Nests face.superMetaRef.display
  ofClass : ∀ id, face.classId = some id → known ≤ id

/-- The classes that have been declared since so many definitions were known have no brackets. -/
structure Symbols.Clears (known : Nat) (x : Symbols) : Prop where
  size : known ≤ x.store.size
  classes : ∀ id c, known ≤ id → x.class? id = some c → c.Clear

/-- What is known of a state on the way. -/
structure GenState.Sane (A : Account) (s : GenState) : Prop where
  numbers : s.Numbers
  seen : ∀ key ∈ s.diagnostics.seen, key.severity = .error → s.diagnostics.hasErrors = true
  faces : A.clear → ∀ id face, s.frames.face? id = some face → face.Nests A.known
  symbols : A.clear → s.symbols.Clears A.known
  source : A.clear → s.settings.source = none

/-- What a step leaves alone. -/
structure GenState.Held (s t : GenState) : Prop where
  settings : t.settings = s.settings
  buffers : t.buffers = s.buffers
  methods : t.methods = s.methods
  faces : ∀ id face, s.frames.face? id = some face → t.frames.face? id = some face
  errors : s.diagnostics.hasErrors = true → t.diagnostics.hasErrors = true

theorem GenState.Held.refl (s : GenState) : s.Held s := ⟨rfl, rfl, rfl, fun _ _ h => h, fun h => h⟩

theorem GenState.Held.trans {s t u : GenState} (h : s.Held t) (h' : t.Held u) : s.Held u where
  settings := h'.settings.trans h.settings
  buffers := h'.buffers.trans h.buffers
  methods := h'.methods.trans h.methods
  faces id face hface := h'.faces id face (h.faces id face hface)
  errors hs := h'.errors (h.errors hs)

/-- A step that leaves alone what has to stay. -/
def Steady (A : Account) {α : Type} (m : Gen α) : Prop :=
  ∀ s, s.Sane A → wp m (fun _ t => t.Sane A ∧ s.Held t) (fun _ _ => True) s

variable {A : Account} {α β : Type} {s t : GenState}

/-! ### Errors -/

namespace Diagnostics

theorem hasErrors_eq_not_isEmpty (d : Diagnostics) : d.hasErrors = !d.errors.isEmpty := by
  rw [hasErrors, errors, Bool.eq_iff_iff]
  simp

theorem SameErrors.hasErrors {d' : Diagnostics} (h : d.SameErrors d') :
    d'.hasErrors = d.hasErrors := by
  rw [hasErrors_eq_not_isEmpty, hasErrors_eq_not_isEmpty, h.errors]

theorem hasErrors_added (i : Issue) (key : IssueKey) :
    (d.added i key).hasErrors = (d.hasErrors || i.isError) := by
  simp [hasErrors, list, added]

theorem hasErrors_note? {d' : Diagnostics} {place message : Value}
    (h : d.note? place message = some d') : d'.hasErrors = d.hasErrors ∧ d'.seen = d.seen := by
  unfold note? at h
  split at h
  · cases h
    exact ⟨rfl, rfl⟩
  · obtain ⟨n, -, h⟩ := Option.bind_eq_some_iff.1 h
    cases h
    refine ⟨?_, rfl⟩
    simp only [hasErrors, list, List.map_map, List.any_map]
    refine congrArg (List.any d.issues) (funext fun e => ?_)
    simp only [Function.comp_apply]
    split <;> rfl

end Diagnostics

theorem GenState.Sane.diagnose (hs : s.Sane A) (hnumbers : { s with diagnostics := d }.Numbers)
    (hseen : ∀ key ∈ d.seen, key.severity = .error → d.hasErrors = true) :
    { s with diagnostics := d }.Sane A := ⟨hnumbers, hseen, hs.faces, hs.symbols, hs.source⟩

theorem GenState.Held.diagnose (h : s.diagnostics.hasErrors = true → d.hasErrors = true) :
    s.Held { s with diagnostics := d } := ⟨rfl, rfl, rfl, fun _ _ h => h, h⟩

/-- After an error is reported there is one, even if it is dropped as a repetition. -/
theorem wp_report_error (hs : s.Sane A) (about : Value) (message : String) :
    wp (report .error about message)
      (fun _ t => (t.Sane A ∧ s.Held t) ∧ t.diagnostics.hasErrors = true) (fun _ _ => True) s := by
  unfold Gen.report
  rw [wp_bind, wp_get]
  refine (wp_bind ..).2 (wp_ofOption (fun i hmake => ?_) fun _ => trivial)
  have hi : i.severity = .error ∧ i.isError = true ∧ i.isWarning = false := by
    obtain ⟨line, _, h⟩ := Option.bind_eq_some_iff.1 hmake
    cases h
    exact ⟨rfl, rfl, rfl⟩
  unfold Diagnostics.record
  simp only [hi.2.2, Bool.false_and, Bool.false_eq_true, if_false]
  cases hkey : i.key? with
  | none => trivial
  | some key =>
    have hseverity := (Issue.key?_severity hkey).trans hi.1
    dsimp only
    split
    · rename_i hcontains
      have herrors := hs.seen key (List.contains_iff_mem.1 hcontains) hseverity
      exact ⟨⟨hs.diagnose (hs.numbers.diagnose rfl rfl) hs.seen, .diagnose fun h => h⟩, herrors⟩
    · have hadded : (s.diagnostics.added i key).hasErrors = true := by
        rw [Diagnostics.hasErrors_added, hi.2.1, Bool.or_true]
      exact ⟨⟨hs.diagnose (hs.numbers.added i key) fun _ _ _ => hadded, .diagnose fun _ => hadded⟩,
        hadded⟩

theorem wp_error (hs : s.Sane A) (about : Value) (message : String) :
    wp (error about message) (fun _ t => (t.Sane A ∧ s.Held t) ∧ t.diagnostics.hasErrors = true)
      (fun _ _ => True) s := by
  refine (wp_report_error hs about message).bind fun r t ht => ?_
  split
  · rw [wp_bind, wp_get]
    refine (wp_bind ..).2 (wp_ofOption (fun exceeded _ => ?_) fun _ => trivial)
    split
    · trivial
    · exact ht
  · exact ht

theorem wp_note (hs : s.Sane A) (about : Value) (message : String) :
    wp (note about message) (fun _ t => (t.Sane A ∧ s.Held t) ∧
      t.diagnostics.hasErrors = s.diagnostics.hasErrors) (fun _ _ => True) s := by
  unfold Gen.note
  rw [wp_bind, wp_get]
  refine (wp_bind ..).2 (wp_ofOption (fun d hnote => ?_) fun _ => trivial)
  obtain ⟨herrors, hseen⟩ := Diagnostics.hasErrors_note? hnote
  have hnumbers : { s with diagnostics := d }.Numbers := by
    unfold Diagnostics.note? at hnote
    split at hnote
    · cases hnote
      exact hs.numbers
    · obtain ⟨n, -, hd⟩ := Option.bind_eq_some_iff.1 hnote
      cases hd
      refine hs.numbers.map (fun _ => rfl) fun e => ?_
      dsimp only
      split <;> rfl
  refine ⟨⟨hs.diagnose hnumbers fun key hkey hseverity => ?_, .diagnose fun h => ?_⟩, herrors⟩
  · rw [herrors]
    exact hs.seen key (hseen ▸ hkey) hseverity
  · rw [herrors]
    exact h

/-! ### Steady steps -/

theorem Frames.face?_unparked (fs : Frames) (id : FrameId) :
    fs.unparked.face? id = fs.face? id := by
  rw [face?, face?, frame?_mapped, Option.map_map]
  rfl

theorem Steady.of_silent {m : Gen α} (h : Silent m) : Steady A m := fun s hs =>
  (h s hs.numbers).mono (fun _ t ⟨halike, hnumbers⟩ => by
    have hface (id : FrameId) : t.frames.face? id = s.frames.face? id := by
      rw [← Frames.face?_unparked, halike.agrees.unparked, Frames.face?_unparked]
    have herrors := halike.diagnostics.hasErrors
    refine ⟨⟨hnumbers, fun key hkey hseverity => ?_,
      fun hclear id face hid => hs.faces hclear id face ((hface id).symm.trans hid),
      fun hclear => halike.agrees.symbols ▸ hs.symbols hclear,
      fun hclear => halike.agrees.settings ▸ hs.source hclear⟩,
      halike.agrees.settings, halike.agrees.buffers, halike.agrees.methods,
      fun id face hid => (hface id).trans hid, fun hs => herrors.trans hs⟩
    rw [herrors]
    refine hs.seen key ?_ hseverity
    rw [← List.contains_iff_mem, ← halike.diagnostics.seen key hseverity]
    exact List.contains_iff_mem.2 hkey) fun _ _ _ => trivial

theorem Steady.bind {m : Gen α} {k : α → Gen β} (hm : Steady A m) (hk : ∀ a, Steady A (k a)) :
    Steady A (m >>= k) := fun s hs =>
  (hm s hs).bind fun a t ht => (hk a t ht.1).imp fun _ _ hu => ⟨hu.1, ht.2.trans hu.2⟩

theorem Steady.look {k : GenState → Gen β} (hk : ∀ s, Steady A (k s)) :
    Steady A (MonadState.get >>= k) := fun s hs => (wp_bind ..).2 (hk s s hs)

/-- A change of frames that keeps their faces and parks nothing. -/
theorem Steady.changeFrames {g : GenState → Frames}
    (hface : ∀ s id, (g s).face? id = s.frames.face? id)
    (hwaits : ∀ s p, (g s).Waits p → s.frames.Waits p) :
    Steady A (modify fun s => { s with frames := g s } : Gen Unit) := fun s hs =>
  ⟨⟨⟨hs.numbers.issues, fun p hp => hs.numbers.waiting p (hwaits s p hp)⟩, hs.seen,
    fun hclear id face hid =>
    hs.faces hclear id face ((hface s id).symm.trans hid), hs.symbols, hs.source⟩,
    rfl, rfl, rfl, fun id _ hid => (hface s id).trans hid, fun h => h⟩

theorem Frames.face?_modify {g : Frame → Frame} (hg : ∀ f, (g f).face = f.face) (id' : FrameId) :
    (fs.modify id g).face? id' = fs.face? id' := by
  rw [face?, face?, frame?_modify]
  split
  · rw [Option.map_map]
    exact congrArg (Option.map · (fs.frame? id')) (funext hg)
  · rfl

theorem Steady.modifyFrame {i : GenState → FrameId} {g : GenState → Frame → Frame}
    (hface : ∀ s f, (g s f).face = f.face) (hparked : ∀ s f, (g s f).parked = f.parked) :
    Steady A (modify fun s => { s with frames := s.frames.modify (i s) (g s) } : Gen Unit) :=
  Steady.changeFrames (fun s => Frames.face?_modify (hface s))
    fun s _ h => h.of_same (hparked s)

theorem steady_judges : Judges fun {_} m => Steady A m where
  pure _ s hs := ⟨hs, .refl s⟩
  incomplete _ _ := trivial
  bind := Steady.bind
  throw _ _ _ _ := trivial
  look _ := Steady.look
  warned hm := .of_silent (hm silent_warns)
  error about message s hs := (wp_error hs about message).imp fun _ _ ht => ht.1
  errorNote about message earlier text s hs :=
    (wp_error hs about message).bind fun _ t ht =>
      (wp_note ht.1.1 earlier text).imp fun _ _ hu => ⟨hu.1.1, ht.1.2.trans hu.1.2⟩
  fatalAt location cause _ s _ := by
    unfold Gen.fatalAt
    rw [wp_bind, wp_get]
    refine (wp_bind ..).2 (wp_ofOption (fun line _ => ?_) fun _ => trivial)
    dsimp only
    split <;> trivial
  declare _ _ _ := Steady.modifyFrame (fun _ _ => rfl) fun _ _ => rfl

namespace Steady

theorem retract (index : Nat) : Steady A (Gen.retract index) := fun _ hs =>
  ⟨⟨⟨hs.numbers.issues, hs.numbers.waiting⟩, hs.seen, hs.faces, hs.symbols, hs.source⟩,
    rfl, rfl, rfl, fun _ _ h => h, fun h => h⟩

theorem hiddenBy (frame : FrameId) (name : Value) : Steady A (Check.hiddenBy frame name) :=
  steady_judges.hiddenBy (fun _ => look)
    (fun _ _ => modifyFrame (fun _ _ => rfl) fun _ _ => rfl)
    (fun _ _ => modifyFrame (fun _ _ => rfl) fun _ _ => rfl) retract frame name

theorem settle (frame : FrameId) : Steady A (Gen.settle frame) := .of_silent (Silent.settle frame)

theorem copyIvarRefs (id : FrameId) : Steady A (modifyFrames (·.copyIvarRefs id)) := by
  have hface (fs : Frames) (i : FrameId) : (fs.copyIvarRefs id).face? i = fs.face? i :=
    Frames.copyIvarRefs_induction (P := fun gs => gs.face? i = fs.face? i) rfl
      fun _ _ _ _ _ _ _ h =>
      (Frames.face?_modify (by exact fun _ => rfl) i).trans h
  exact changeFrames (fun s => hface s.frames) fun _ _ => Frames.waits_copyIvarRefs

theorem takeTemp (frame : FrameId) : Steady A (Message.takeTemp frame) := fun s hs =>
  modifyFrame (i := fun s => s.frames.varFrame frame)
    (g := fun s f => { f with
      level := ((s.frames.frame? (s.frames.varFrame frame)).map (·.level)).getD 0 + 1
      maxLevel := max f.maxLevel
        (((s.frames.frame? (s.frames.varFrame frame)).map (·.level)).getD 0 + 1) })
    (fun _ _ => rfl) (fun _ _ => rfl) s hs

theorem emit (i : Instr) : Steady A (Gen.emit i) := fun _ hs =>
  wp_instr i ⟨⟨⟨hs.numbers.issues, hs.numbers.waiting⟩, hs.seen, hs.faces, hs.symbols, hs.source⟩,
    rfl, rfl, rfl, fun _ _ h => h, fun h => h⟩ trivial

end Steady

theorem Frames.face?_new (fs : Frames) (f : Frame) (id : FrameId) :
    (fs.new f).2.face? id = if id = fs.store.size then some f.face else fs.face? id := by
  rw [face?, face?, frame?_new]
  split <;> rfl

theorem Frames.lt_of_face? {face : Face} (h : fs.face? id = some face) : id < fs.store.size := by
  obtain ⟨f, hf, _⟩ := Option.map_eq_some_iff.1 h
  exact isSome_frame?.1 (by rw [hf]; rfl)

theorem wp_newFrame {f : Frame} (hs : s.Sane A) (hparked : f.parked = [])
    (hface : A.clear → f.face.Nests A.known) :
    wp (newFrame f) (fun id t => (t.Sane A ∧ s.Held t) ∧ t.frames.face? id = some f.face)
      (fun _ _ => True) s := by
  refine ⟨⟨⟨⟨hs.numbers.issues, fun p hp => hs.numbers.waiting p (Frames.waits_new hparked hp)⟩,
    hs.seen, fun hclear id face hid => ?_, hs.symbols, hs.source⟩, rfl, rfl, rfl,
    fun id face hid => ?_, fun h => h⟩, ?_⟩
  · change (s.frames.new f).2.face? id = _ at hid
    rw [Frames.face?_new] at hid
    split at hid
    · cases hid
      exact hface hclear
    · exact hs.faces hclear id face hid
  · change (s.frames.new f).2.face? id = _
    rw [Frames.face?_new, if_neg (Nat.ne_of_lt (Frames.lt_of_face? hid))]
    exact hid
  · change (s.frames.new f).2.face? s.frames.store.size = _
    rw [Frames.face?_new, if_pos rfl]

/-! ### Symbols -/

theorem ClassDef.Clear.mapMethods {c : ClassDef} (h : c.Clear) (kind : MethodKind)
    (f : Table Key Method → Table Key Method) : (c.mapMethods kind f).Clear := by
  cases kind with
  | ofInstance => exact ⟨h.name, h.ivars⟩
  | ofClass => exact ⟨h.name, h.ivars⟩

namespace Symbols

variable {x y : Symbols} {id : DefinitionId} {known : Nat}

namespace Clears

theorem of_store (hx : x.Clears known) (h : y.store = x.store) : y.Clears known where
  size := h ▸ hx.size
  classes id c hid hc := hx.classes id c hid (by rwa [class?, definition?, h] at hc)

theorem new (hx : x.Clears known) {d : Definition} (hd : ∀ c, d = .classDef c → c.Clear) :
    (x.new d).2.Clears known where
  size := by
    rw [Symbols.new, Array.size_push]
    exact Nat.le_succ_of_le hx.size
  classes id c hid hc := by
    rcases class?_new_cases hc with hc | ⟨_, hc⟩
    · exact hx.classes id c hid hc
    · exact hd c hc

theorem modifyClass (hx : x.Clears known) {f : ClassDef → ClassDef}
    (hf : ∀ c, c.Clear → (f c).Clear) : (x.modifyClass id f).Clears known where
  size := by
    rw [Symbols.modifyClass, Array.size_modify]
    exact hx.size
  classes j c hj hc := by
    rw [class?_modifyClass] at hc
    split at hc
    · obtain ⟨d, hd, rfl⟩ := Option.map_eq_some_iff.1 hc
      exact hf d (hx.classes j d hj hd)
    · exact hx.classes j c hj hc

theorem modifyProtocol (hx : x.Clears known) (f : ProtocolDef → ProtocolDef) :
    (x.modifyProtocol id f).Clears known where
  size := by
    rw [Symbols.modifyProtocol, Array.size_modify]
    exact hx.size
  classes j c hj hc := hx.classes j c hj (by rwa [class?_modifyProtocol] at hc)

theorem addMethod (hx : x.Clears known) (m : Method) (kind : MethodKind) :
    (x.addMethod id m kind).Clears known := by
  have hown : (x.modifyClass id (·.mapMethods kind (·.set m.key m))).Clears known :=
    hx.modifyClass fun _ h => h.mapMethods _ _
  unfold Symbols.addMethod
  dsimp only
  split
  · exact hown.modifyClass fun _ h => h.mapMethods _ _
  · exact hown

end Clears

/-- What is registered is stored already. -/
theorem registerClass_store : (x.registerClass id).Holds (·.store = x.store) := by
  have henter (key : Key) (c : ClassDef) : (x.enterClass key id c).Holds (·.store = x.store) := by
    unfold enterClass
    dsimp only
    split <;> rfl
  unfold registerClass
  split
  · rfl
  split
  · rfl
  split
  · exact henter _ _
  split
  · rfl
  split
  · exact henter _ _
  · trivial

theorem registerProtocol_store : (x.registerProtocol id).Holds (·.store = x.store) := by
  unfold registerProtocol
  split
  · rfl
  split
  · rfl
  split
  · trivial
  · dsimp only
    split <;> rfl

theorem registerTypedef_store (t : Typedef) : (x.registerTypedef t).Holds (·.store = x.store) := by
  unfold registerTypedef
  split
  · rfl
  · dsimp only
    split <;> rfl

end Symbols

namespace Steady

theorem symbols {g : Symbols → α × Symbols}
    (hg : A.clear → ∀ x : Symbols, x.Clears A.known → (g x).2.Clears A.known) :
    Steady A (modifyGet fun s =>
      ((g s.symbols).1, { s with symbols := (g s.symbols).2 }) : Gen α) :=
  fun s hs => ⟨⟨⟨hs.numbers.issues, hs.numbers.waiting⟩, hs.seen, hs.faces,
    fun hclear => hg hclear s.symbols (hs.symbols hclear), hs.source⟩, rfl, rfl, rfl, fun _ _ h =>
    h, fun h => h⟩

theorem modifySymbols {g : Symbols → Symbols}
    (hg : A.clear → ∀ x : Symbols, x.Clears A.known → (g x).Clears A.known) :
    Steady A (Gen.modifySymbols g) := symbols (g := fun x => ((), g x)) hg

theorem newSymbol {d : Definition} (hd : A.clear → ∀ c, d = .classDef c → c.Clear) :
    Steady A (modifyGet fun s =>
      let (id, symbols) := s.symbols.new d
      (id, { s with symbols }) : Gen Nat) :=
  symbols (g := fun x => x.new d) fun hclear _ hx => hx.new (hd hclear)

theorem register {f : Symbols → Registration} (hf : ∀ x, (f x).Holds (·.store = x.store)) :
    Steady A (Gen.register f) := by
  intro s hs
  have hset (x : Symbols) (hx : x.store = s.symbols.store) :
      wp (modify fun s => { s with symbols := x } : Gen Unit) (fun _ t => t.Sane A ∧ s.Held t)
        (fun _ _ => True) s :=
    ⟨⟨⟨hs.numbers.issues, hs.numbers.waiting⟩, hs.seen, hs.faces,
      fun hclear => (hs.symbols hclear).of_store hx, hs.source⟩, rfl, rfl, rfl, fun _ _ h =>
      h, fun h => h⟩
  have hstore := hf s.symbols
  unfold Gen.register
  rw [wp_bind, wp_get]
  split
  · rename_i hdone
    rw [hdone] at hstore
    exact hset _ hstore
  · trivial
  · trivial

theorem announceName {name : Value} (hname : A.clear → name.Clear) (t : Tree) (frame : FrameId)
    (identifier : Value) : Steady A (Statement.announceName t frame identifier name) := by
  have hnew (hclear : A.clear) (c : ClassDef)
      (hc : Definition.classDef { name, node := identifier } = .classDef c) : c.Clear := by
    cases hc
    exact ⟨hname hclear, nofun⟩
  unfold Statement.announceName
  split
  · intro s hs
    rw [wp_bind, wp_get]
    dsimp only
    rw [wp_bind, wp_modify]
    have hsane : { s with symbols := (s.symbols.new (.classDef { name, node := identifier })).2
      }.Sane A :=
      ⟨⟨hs.numbers.issues, hs.numbers.waiting⟩, hs.seen, hs.faces,
        fun hclear => (hs.symbols hclear).new (hnew hclear), hs.source⟩
    have hregister := (register (A := A) (f := (·.registerClass s.symbols.store.size))
      fun _ => Symbols.registerClass_store).bind fun _ => steady_judges.pure (none : Option String)
    refine (hregister _ hsane).imp fun _ t ht => ⟨ht.1, ?_⟩
    exact ⟨ht.2.settings, ht.2.buffers, ht.2.methods, ht.2.faces, ht.2.errors⟩
  · exact look fun s => (steady_judges.key _).bind fun key =>
      (steady_judges.declare _ _ _).bind fun _ => steady_judges.pure _
  · exact (register fun _ => Symbols.registerTypedef_store _).bind fun _ => steady_judges.pure _

end Steady

/-! ### Methods -/

theorem steady_methods : Methods fun {_} m => Steady A m where
  toAsks := steady_judges.toAsks
  ofClass _ kind _ _ _ := Steady.bind (steady_judges.makeMethod _ _ _) fun m =>
    .modifySymbols fun _ _ hx => hx.addMethod m kind
  ofProtocol _ _ _ _ _ _ := Steady.bind (steady_judges.makeMethod _ _ _) fun _ =>
    .modifySymbols fun _ _ hx => hx.modifyProtocol _

end ObjectiveJ
