import ObjectiveJ.Proofs.Balance.Walk
import ObjectiveJ.Proofs.Law.Part

/-!
# Declarations inside of declarations

While the members of a class or a protocol are compiled, there are buffers for its methods. A
declaration opens a body and such buffers, whatever there was before, and leaves none at its end. So
the buffers of a class last as long as no declaration is opened among its members
(`GenState.Lasts`), and a class that comes to its end has opened no body but its own, and adds the
methods that are in its own buffers (`class_alone`).
-/

namespace ObjectiveJ

open Gen

/-! ### Bodies and buffers -/

namespace Frames

/-- How many bodies of classes and protocols have been opened. -/
def bodies (fs : Frames) : Nat := (fs.store.map (·.kind)).countP FrameKind.isBody

def Alike (fs gs : Frames) : Prop := gs.bodies = fs.bodies

variable {fs gs : Frames}

theorem Alike.refl (fs : Frames) : fs.Alike fs := rfl

theorem Alike.modify {id : FrameId} {g : Frame → Frame} (h : fs.Alike gs)
    (hg : ∀ f, (g f).kind = f.kind) : fs.Alike (gs.modify id g) := by
  rw [Alike, bodies, Frames.modify, map_modify_same hg]
  exact h

theorem bodies_new (fs : Frames) (f : Frame) :
    (fs.new f).2.bodies = fs.bodies + if f.kind.isBody then 1 else 0 := by
  rw [new, bodies, Array.map_push, Array.countP_push, bodies]

end Frames

namespace GenState

variable {s t u : GenState}

/-- Nothing has been written, no body has been opened, and there are no other buffers. -/
structure Quiet (s t : GenState) : Prop where
  frames : s.frames.Alike t.frames
  methods : t.methods = s.methods
  trace : t.trace = s.trace
  buffers : t.buffers = s.buffers

theorem Quiet.trans (h : s.Quiet t) (h' : t.Quiet u) : s.Quiet u where
  frames := h'.frames.trans h.frames
  methods := h'.methods.trans h.methods
  trace := h'.trace.trans h.trace
  buffers := h'.buffers.trans h.buffers

def methodNumbers (s : GenState) : Option (Nat × Nat) :=
  s.methods.map fun both => (both.instanceMethods.buffer, both.classMethods.buffer)

/-- No body has been opened and the buffers for methods are the same, or they are gone. -/
def Lasts (s t : GenState) : Prop :=
  s.frames.Alike t.frames ∧ t.methodNumbers = s.methodNumbers ∨ t.methodNumbers = none

theorem Lasts.of_frames (hframes : s.frames.Alike t.frames) (hmethods : t.methods = s.methods) :
    s.Lasts t := .inl ⟨hframes, congrArg (Option.map _) hmethods⟩

theorem Lasts.of_same (hframes : t.frames = s.frames) (hmethods : t.methods = s.methods) :
    s.Lasts t :=
  .of_frames (hframes ▸ .refl _) hmethods

theorem Lasts.trans (h : s.Lasts t) (h' : t.Lasts u) : s.Lasts u := by
  rcases h' with ⟨hframes', hnumbers'⟩ | hnone
  · rcases h with ⟨hframes, hnumbers⟩ | hnone
    · exact .inl ⟨hframes'.trans hframes, hnumbers'.trans hnumbers⟩
    · exact .inr (hnumbers'.trans hnone)
  · exact .inr hnone

end GenState

/-! ### Steps -/

/-- Steps after which the states are related. -/
def Steps (R : GenState → GenState → Prop) {α : Type} (m : Gen α) : Prop :=
  ∀ s, wp m (fun _ t => R s t) (fun _ _ => True) s

namespace Steps

variable {R : GenState → GenState → Prop} {α β : Type} {m : Gen α}

theorem of_run (h : ∀ s, R s (m.run.run s).2) : Steps R m := by
  intro s
  have hrun := h s
  unfold wp
  split
  · rename_i hm
    rwa [hm] at hrun
  · trivial

theorem bind (htrans : ∀ s t u, R s t → R t u → R s u) {k : α → Gen β} (hm : Steps R m)
    (hk : ∀ a, Steps R (k a)) : Steps R (m >>= k) := by
  intro s
  refine (hm s).bind fun a t ht => ?_
  exact (hk a t).imp fun _ _ hu => htrans s t _ ht hu

theorem checks (hquiet : ∀ {s t : GenState}, s.Quiet t → R s t)
    (htrans : ∀ s t u, R s t → R t u → R s u) : Checks (@Steps R) := by
  have hsame (s : GenState) : R s s := hquiet ⟨rfl, rfl, rfl, rfl⟩
  have hframes {g : Frames → Frames} (hg : ∀ fs : Frames, fs.Alike (g fs)) :
      Steps R (Gen.modifyFrames g) := of_run fun s => hquiet ⟨hg s.frames, rfl, rfl, rfl⟩
  exact {
    pure := fun _ => of_run hsame
    incomplete := of_run hsame
    throw := fun _ => of_run hsame
    bind := bind htrans
    look := fun _ hk => bind htrans (fun s => hsame s) hk
    diagnose := fun _ => of_run fun _ => hquiet ⟨rfl, rfl, rfl, rfl⟩
    declare := fun _ _ _ => hframes fun fs => (Frames.Alike.refl fs).modify fun _ => rfl
    park := fun _ _ _ _ _ => hframes fun fs => (Frames.Alike.refl fs).modify fun _ => rfl }

theorem quiet : Checks (@Steps GenState.Quiet) := checks (fun h => h) fun _ _ _ => .trans

/-- What follows a step starts in a state related to that before it. -/
theorem wp_bind {k : α → Gen β} {Q : β → GenState → Prop} {s : GenState} (hm : Steps R m)
    (hk : ∀ a t, R s t → wp (k a) Q (fun _ _ => True) t) : wp (m >>= k) Q (fun _ _ => True) s :=
  (hm s).bind hk

end Steps

def Lasting {α : Type} (m : Gen α) : Prop := Steps GenState.Lasts m

namespace Lasting

variable {α β : Type} {m : Gen α} {id : FrameId}

theorem bind {k : α → Gen β} (hm : Lasting m) (hk : ∀ a, Lasting (k a)) : Lasting (m >>= k) :=
  Steps.bind (fun _ _ _ => .trans) hm hk

theorem checks : Checks @Lasting := Steps.checks (fun h => .of_frames h.frames h.methods)
  fun _ _ _ => .trans

theorem look {k : GenState → Gen β} (hk : ∀ s, Lasting (k s)) : Lasting (get >>= k) :=
  bind (Steps.of_run fun _ => .of_same rfl rfl) hk

theorem modifyGet {g : GenState → α × GenState}
    (hg : ∀ s, (g s).2.frames = s.frames ∧ (g s).2.methods = s.methods) :
    Lasting (modifyGet g : Gen α) :=
  Steps.of_run fun s => .of_same (hg s).1 (hg s).2

theorem modifyFrames {g : Frames → Frames} (hg : ∀ fs : Frames, fs.Alike (g fs)) :
    Lasting (Gen.modifyFrames g) := Steps.of_run fun s => .of_frames (hg s.frames) rfl

theorem modifyFrame {g : Frame → Frame} (hg : ∀ f, (g f).kind = f.kind) :
    Lasting (Gen.modifyFrames (·.modify id g)) :=
  modifyFrames fun fs => (Frames.Alike.refl fs).modify hg

theorem emit (i : Instr) : Lasting (Gen.emit i) := fun _ => wp_instr i (.of_same rfl rfl) trivial

theorem free : Free @Lasting where
  toJudges := checks.judge
  lookAt := look
  instr := emit
  modifyFrame _ _ hg := modifyFrame hg
  newBuffer := modifyGet fun _ => ⟨rfl, rfl⟩
  retract _ := modifyGet fun _ => ⟨rfl, rfl⟩

theorem records : Records @Lasting where
  toJudges := checks.judge
  symbols _ := modifyGet fun _ => ⟨rfl, rfl⟩

theorem within (type : String) (role : StatementRole) {body : Gen Unit} (hbody : Lasting body) :
    Lasting (Gen.within type role body) :=
  bind (modifyGet fun _ => ⟨rfl, rfl⟩) fun _ => bind hbody fun _ => modifyGet fun _ => ⟨rfl, rfl⟩

theorem newFrame {f : Frame} (hf : f.kind.isBody = false) : Lasting (Gen.newFrame f) := by
  have hnew (fs : Frames) : fs.Alike (fs.new f).2 := by
    rw [Frames.Alike, Frames.bodies_new, hf]
    rfl
  exact Steps.of_run fun s => .of_frames (hnew s.frames) rfl

theorem settle (frame : FrameId) : Lasting (Gen.settle frame) := by
  intro s
  have hframes : s.frames.Alike (s.settled frame).frames :=
    Diagnostics.settleAll_induction (fun _ _ h => h.modify fun _ => rfl) s.symbols (.refl _) _ _
  exact wp_settle frame (.of_frames hframes rfl) trivial

theorem copyIvarRefs (id : FrameId) : Lasting (Gen.modifyFrames (·.copyIvarRefs id)) :=
  modifyFrames fun fs => Frames.copyIvarRefs_induction (Frames.Alike.refl fs)
    fun _ _ _ _ _ _ _ h => h.modify fun _ => rfl

theorem startMethod (kind : MethodKind) : Lasting (Declaration.startMethod kind) := by
  intro s
  refine (wp_bind ..).2 ((wp_bind ..).2 ?_)
  refine wp_ofOption (fun both hboth => ?_) fun _ => trivial
  have hlasts {t : GenState} (hframes : t.frames = s.frames)
      (hmethods : t.methods = some (both.mark kind)) : s.Lasts t := by
    refine .inl ⟨hframes ▸ .refl _, ?_⟩
    rw [GenState.methodNumbers, GenState.methodNumbers, hmethods, hboth]
    cases kind <;> rfl
  dsimp only
  split
  · exact (wp_bind ..).2 (wp_instr _ (hlasts rfl rfl) trivial)
  · exact hlasts rfl rfl

end Lasting

/-! ### The law -/

/-- Steps in which the buffers for methods last, as a law. -/
def lastLaw : Law := Lasting.free.law fun _ => True

theorem lastLaw_registers : lastLaw.Registers := .of_records fun _ => Lasting.records

theorem lastLaw_revises : lastLaw.Revises := .of_records fun _ => Lasting.records

theorem lastLaw_starts : lastLaw.Starts where
  methods _ := Lasting.records.methods
  startMethod _ := Lasting.startMethod

/-! ### Classes -/

namespace GenState

/-- This many bodies have been opened, and these are the buffers for methods if there are some. -/
def Owns (bodies : Nat) (numbers : Nat × Nat) (s : GenState) : Prop :=
  ∀ found, s.methodNumbers = some found → found = numbers ∧ s.frames.bodies = bodies

variable {s t : GenState} {bodies : Nat} {numbers : Nat × Nat}

theorem Owns.lasts (h : s.Owns bodies numbers) (h' : s.Lasts t) : t.Owns bodies numbers := by
  intro found hfound
  rcases h' with ⟨hframes, hnumbers⟩ | hnone
  · obtain ⟨hsame, hbodies⟩ := h found (hnumbers ▸ hfound)
    exact ⟨hsame, hframes.trans hbodies⟩
  · rw [hnone] at hfound
    exact nomatch hfound

end GenState

def Declaration.additions (title target : String) (m : MethodBuffer) (buffer : Nat) : List Instr :=
  if m.isEmpty then []
  else [.template buffer s!"\n\n// {title} methods\nclass_addMethods({target},\n[" false none,
    .splice buffer m.buffer, .template buffer "\n]);" false none]

/-- A class has come to its end: this many bodies have been opened, and the last code adds the
methods in the buffers of these numbers. -/
structure GenState.Closed (bodies : Nat) (numbers : Nat × Nat) (buffer : Nat) (s : GenState) :
    Prop where
  bodies_eq : s.frames.bodies = bodies
  methods : s.methods = none
  code : ∃ both : MethodBuffers, (both.instanceMethods.buffer, both.classMethods.buffer) = numbers ∧
    ∃ earlier comment, s.trace.toList = earlier ++
      Declaration.additions "Instance" "$the_class" both.instanceMethods buffer ++
      Declaration.additions "Class" "$the_class.isa" both.classMethods buffer ++
      [.template buffer ("\n// @end: " ++ comment) false none]

section Classes

variable {s : GenState} {bodies : Nat} {numbers : Nat × Nat} {α β : Type} {Q : β → GenState → Prop}

theorem Lasting.wp_bind {m : Gen α} {k : α → Gen β} (hm : Lasting m) (hs : s.Owns bodies numbers)
    (hk : ∀ a t, t.Owns bodies numbers → wp (k a) Q (fun _ _ => True) t) :
    wp (m >>= k) Q (fun _ _ => True) s := Steps.wp_bind hm fun a t ht => hk a t (hs.lasts ht)

theorem wp_addMethods (title target : String) (m : MethodBuffer) (buffer : Nat) :
    wp (Declaration.addMethods title target m buffer) (fun _ t => t.frames = s.frames ∧
      t.trace.toList = s.trace.toList ++ Declaration.additions title target m buffer)
      (fun _ _ => True) s := by
  unfold Declaration.addMethods Declaration.additions
  split
  · exact ⟨rfl, (List.append_nil _).symm⟩
  · refine (wp_bind ..).2 (wp_instr _ ?_ trivial)
    refine (wp_bind ..).2 (wp_instr _ (wp_instr _ ⟨rfl, ?_⟩ trivial) trivial)
    simp

/-- The code at the end of a class adds the methods in the buffers that there are. -/
theorem wp_endClass (hs : s.Owns bodies numbers) (id : ClassId) (protocols : Value)
    (comment : String) (buffer : Nat) :
    wp (Declaration.endClass id protocols comment buffer)
      (fun _ t => t.Closed bodies numbers buffer) (fun _ _ => True) s := by
  refine (wp_bind ..).2 ((wp_bind ..).2 (wp_ofOption (fun both hboth => ?_) fun _ => trivial))
  have hnumbers : s.methodNumbers = some (both.instanceMethods.buffer,
      both.classMethods.buffer) := by
    rw [GenState.methodNumbers, hboth, Option.map_some]
  -- there are buffers, so no declaration among the members has taken them away
  obtain ⟨hsame, hbodies⟩ := hs _ hnumbers
  refine (wp_addMethods ..).bind fun _ t ⟨htframes, httrace⟩ => ?_
  refine (wp_addMethods ..).bind fun _ u ⟨huframes, hutrace⟩ => ?_
  refine (wp_bind ..).2 (wp_instr _ ?_ trivial)
  have hclosed {v : GenState} (hframes : u.frames.Alike v.frames)
      (htrace : v.trace = u.trace.push (.template buffer ("\n// @end: " ++ comment) false none)) :
      wp Declaration.closeMethods (fun _ t => t.Closed bodies numbers buffer)
        (fun _ _ => True) v := by
    refine ⟨hframes.trans ?_, rfl, both, hsame, s.trace.toList, comment, ?_⟩
    · rw [huframes, htframes, hbodies]
    · change v.trace.toList = _
      rw [htrace, Array.toList_push, hutrace, httrace]
  dsimp only
  split
  · have hquiet : Steps GenState.Quiet (Check.conformance id protocols) :=
      Steps.quiet.judge.warned fun hA => hA.conformance ..
    exact (hquiet _).bind fun _ v hv => hclosed hv.frames hv.trace
  · exact hclosed (.refl _) rfl

theorem wp_opening {t : Tree} {frame : FrameId} {k : Value → Gen Unit}
    {Q : Unit → GenState → Prop} (hquiet : ∀ u, s.Quiet u → Q () u)
    (hk : ∀ name u, u.Owns s.frames.bodies (s.buffers, s.buffers + 1) →
      wp (k name) Q (fun _ _ => True) u) :
    wp (do
      let identifier ← field t "name"
      let name ← part identifier "name"
      if !(← Check.isUnique frame t identifier) then return
      Declaration.openMethods
      k name) Q (fun _ _ => True) s := by
  refine (Steps.quiet.judge.field _ _).wp_bind fun identifier t ht => ?_
  refine (Steps.quiet.judge.part _ _).wp_bind fun name u hu => ?_
  refine (Steps.quiet.judge.isUnique _ _ _).wp_bind fun unique v hv => ?_
  have hall : s.Quiet v := (ht.trans hu).trans hv
  split
  · exact hquiet v hall
  · refine (wp_bind ..).2 (hk _ _ fun both hboth => ⟨?_, hall.frames⟩)
    rw [← hall.buffers]
    exact (Option.some.inj hboth).symm

theorem wp_newBody {body : Frame} {k : FrameId → Gen β} (hbody : body.kind.isBody = true)
    (hs : s.Owns bodies numbers)
    (hk : ∀ id t, t.Owns (bodies + 1) numbers → wp (k id) Q (fun _ _ => True) t) :
    wp (newFrame body >>= k) Q (fun _ _ => True) s := by
  refine (wp_bind ..).2 (hk _ _ fun found hfound => ?_)
  obtain ⟨hsame, hbodies⟩ := hs found hfound
  refine ⟨hsame, ?_⟩
  change (s.frames.new body).2.bodies = bodies + 1
  rw [Frames.bodies_new, hbody, hbodies]
  rfl

theorem wp_classMembers {walk : Walker} (hw : lastLaw.Walks walk)
    (hs : s.Owns bodies numbers) (t : Tree)
    (id : ClassId) (ivars protocols : Value) (comment : String) (frame : FrameId) (site : Site)
    (hasAccessors : Bool) :
    wp (Declaration.classMembers walk t id ivars protocols comment frame site hasAccessors)
      (fun _ u => u.Closed bodies numbers site.buffer) (fun _ _ => True) s := by
  refine (Lasting.checks.judge.fieldItems _ _).wp_bind hs fun vs u hu => ?_
  have hmembers : lastLaw.Allows { site with frame }.frame _ :=
    hw.inTurn fun v (_ : v ∈ vs) _ _ => trivial
  refine Lasting.wp_bind hmembers hu fun _ u hu => ?_
  cases hasAccessors with
  | true =>
    refine (Lasting.emit _).wp_bind hu fun _ u hu => ?_
    refine (Lasting.checks.judge.items _).wp_bind hu fun vs u hu => ?_
    refine Lasting.wp_bind (lastLaw_starts.addAccessors (f := frame) id [] vs) hu fun _ u hu => ?_
    exact (Lasting.emit _).wp_bind hu fun _ u hu => wp_endClass hu ..
  | false => exact wp_endClass hu ..

theorem wp_classDeclaration {walk : Walker} (hw : lastLaw.Walks walk) (t : Tree) (site : Site) :
    wp (Declaration.classDeclaration walk t site) (fun _ u => s.Quiet u ∨
      u.Closed (s.frames.bodies + 1) (s.buffers, s.buffers + 1) site.buffer)
        (fun _ _ => True) s := by
  have hjudges : Judges @Lasting := Lasting.checks.judge
  refine wp_opening (fun u hu => .inl hu) fun name u hu => ?_
  refine (Lasting.records.newClass _ _).wp_bind hu fun id u hu => ?_
  refine (hjudges.field _ _).wp_bind hu fun protocols u hu => ?_
  refine (hjudges.itemsIfTrue _).wp_bind hu fun conformed u hu => ?_
  refine Lasting.wp_bind (lastLaw_revises.addProtocols (f := 0) _ _) hu fun _ u hu => ?_
  refine Lasting.wp_bind ((lastLaw.judges 0).protocolNames _) hu fun names u hu => ?_
  refine Lasting.wp_bind (Law.startClass (L := lastLaw) (f := 0) _ _ _) hu fun comment u hu => ?_
  refine Lasting.wp_bind (Law.writeProtocols (L := lastLaw) (f := 0) _ _ _) hu fun _ u hu => ?_
  refine (wp_bind ..).2 (wp_newBody rfl hu fun frame u hu => ?_)
  refine (hjudges.field _ _).wp_bind hu fun ivars u hu => ?_
  refine (hjudges.field _ _).wp_bind hu fun category u hu => ?_
  have hregister : Lasting (register (·.registerClass id)) :=
    Lasting.records.register fun _ _ => Symbols.not_isLimit_registerClass
  have hrest (found : Bool) {u : GenState}
      (hu : u.Owns (s.frames.bodies + 1) (s.buffers, s.buffers + 1)) :=
    hregister.wp_bind hu fun _ _ hv =>
      (wp_classMembers hw hv t id ivars protocols comment frame site
      found).imp fun _ v h => show s.Quiet v ∨ _ from .inr h
  dsimp only
  split
  · refine (Lasting.emit _).wp_bind hu fun _ u hu => ?_
    exact Lasting.wp_bind (lastLaw_revises.writeIvars (f := 0) id _ ivars) hu fun found _ =>
      hrest found
  · exact hrest false hu

/-- Whatever a step does, only what follows it counts. -/
theorem wp_skip {m : Gen α} {k : α → Gen β} (hk : ∀ a t, wp (k a) Q (fun _ _ => True) t) :
    wp (m >>= k) Q (fun _ _ => True) s := (wp_bind ..).2 (wp_of_forall hk fun _ _ => trivial)

theorem Lasting.protocolDeclaration (walk : Walker) (t : Tree) (site : Site) :
    Lasting (Declaration.protocolDeclaration walk t site) := by
  intro s
  refine wp_opening (fun u hu => .of_frames hu.frames hu.methods) fun name u _ => ?_
  -- whatever becomes of its members, the last step takes the buffers away
  repeat refine wp_skip fun _ _ => ?_
  exact .inr rfl

end Classes

theorem lastLaw_runs : lastLaw.Runs where
  anyFrame h := h
  instr _ _ _ := Lasting.emit _
  within _ := Lasting.within _ _
  newFrame _ _ hf _ _ _ := Lasting.newFrame hf
  takeTemp _ _ := Steps.of_run fun s =>
    .of_frames ((Frames.Alike.refl s.frames).modify fun _ => rfl) rfl
  dropTemp _ _ := Lasting.modifyFrames fun fs => (Frames.Alike.refl fs).modify fun _ => rfl
  unpark _ _ := Lasting.modifyFrames fun fs => (Frames.Alike.refl fs).modify fun _ => rfl
  declares := {
    classDeclaration := fun {_ t site} hw _ _ _ => (wp_classDeclaration hw t site).imp
      fun _ _ h => h.elim (fun h => .of_frames h.frames h.methods) fun h =>
      .inr (congrArg (Option.map _) h.methods)
    protocolDeclaration := fun _ _ _ => Lasting.protocolDeclaration _ _ _
    announce := fun keyword _ _ => lastLaw_registers.announce keyword
    startMethod := fun _ => Lasting.startMethod }
  opens := {
    settle := fun _ => Lasting.settle
    copyIvarRefs := fun _ => Lasting.copyIvarRefs
    recordMethod := fun _ => Lasting.records.methods.recordMethod }

/-- A class that comes to its end was refused for its name, or no declaration has been opened among
its members and the methods that it adds are those in the buffers that were opened for it. -/
theorem class_alone (n : Nat) {t : Tree} (htype : t.type = .classDeclaration) (site : Site)
    {s u : GenState} (hrun : (compileForm (walk n) t site).run.run s = (.ok (), u)) :
    s.Quiet u ∨ u.Closed (s.frames.bodies + 1) (s.buffers, s.buffers + 1) site.buffer := by
  unfold compileForm at hrun
  rw [htype] at hrun
  exact wp.ok (wp_classDeclaration (lastLaw_runs.scopes.walks n).1 t site) hrun

def classOf (name selector : String) (statements : List Value) : Tree :=
  { type := .classDeclaration, span := {}, fields :=
    [("name", .name name), ("superclass", .null), ("category", .null), ("protocols", .null),
      ("ivars", .list []), ("body", .list [.method selector statements])] }

theorem classOf_alone : ∃ u,
    (compileForm (walk 3) (classOf "A" "m" []) { frame := 0 }).run.run insideProgram = (.ok (), u) ∧
      u.Closed 1 (1, 2) 0 := by
  have hfacts : ((compileForm (walk 3) (classOf "A" "m" []) { frame := 0 }).run.run
      insideProgram).1.toOption.isSome ∧
      ((compileForm (walk 3) (classOf "A" "m" []) { frame := 0 }).run.run
      insideProgram).2.trace.size ≠ 0 := by decide +kernel
  rcases hrun : (compileForm (walk 3) (classOf "A" "m" []) { frame := 0 }).run.run insideProgram
    with ⟨e | ⟨⟩, u⟩
  · rw [hrun] at hfacts
    exact nomatch hfacts.1
  · rcases class_alone 3 rfl _ hrun with hquiet | hclosed
    · rw [hrun] at hfacts
      exact absurd (congrArg Array.size hquiet.trace) hfacts.2
    · have hbodies : insideProgram.frames.bodies = 0 := by decide +kernel
      rw [hbodies] at hclosed
      exact ⟨u, rfl, hclosed⟩

def unitOf (declarations : List Tree) : CompileUnit where
  program := .program (declarations.map .tree)

/-- A class that is declared in a method of another one is the end of the unit. -/
theorem compile_nestedClasses :
    let c := Compiler.unmapped.withFormat (.bundled "cappuccino")
    (c.compile {} (unitOf [classOf "A" "m" [.tree (classOf "B" "n" [])]])).1.toOption.map
        CompileResult.success = none ∧
      (c.compile {} (unitOf [classOf "B" "n" [], classOf "A" "m" []])).1.toOption.map
        CompileResult.success = some true := by
  decide +kernel

end ObjectiveJ
