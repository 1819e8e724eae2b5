import Mathlib.Data.List.Forall2
import ObjectiveJ.Proofs.Law.Program
import ObjectiveJ.Proofs.Run

/-!
# Steps that restore what they change

While a node is compiled, it is entered in the ancestry, names in it stand in an assignment, and
code is indented. All of that is undone at the end of the node. `Restores` is the law of steps after
which

* the parents of the ancestry are the same, with more statements at most;
* each frame that was there stands in the same assignment, and has taken no less temps;
* the instructions written are balanced.

A step that fails has written instructions of the usual kind, but they need not be balanced.
-/

namespace ObjectiveJ

open Gen

/-! ### The ancestry -/

/-- The same parent, in which more statements may have been seen. -/
structure Parent.Grows (p q : Parent) : Prop where
  self : q.self = p.self
  statements : p.statements <:+ q.statements

namespace Ancestry

/-- The same parents, in which more statements may have been seen. -/
def Grows (a b : Ancestry) : Prop := List.Forall₂ Parent.Grows a.parents b.parents

variable {a b c : Ancestry}

theorem Grows.of_parents (h : b.parents = a.parents) : a.Grows b := by
  rw [Grows, h]
  exact List.forall₂_same.2 fun p _ => ⟨rfl, List.suffix_refl _⟩

theorem Grows.trans (h : a.Grows b) (h' : b.Grows c) : a.Grows c := by
  have hall {ps qs rs : List Parent} (h : List.Forall₂ Parent.Grows ps qs)
      (h' : List.Forall₂ Parent.Grows qs rs) : List.Forall₂ Parent.Grows ps rs := by
    induction h generalizing rs with
    | nil => exact h'
    | cons hp _ ih =>
      obtain ⟨r, rest, hq, hrest, rfl⟩ := List.forall₂_cons_left_iff.1 h'
      exact .cons ⟨hq.self.trans hp.self, hp.statements.trans hq.statements⟩ (ih hrest)
  exact hall h h'

theorem Grows.record (s : Statement) (h : b.parents = a.parents) : a.Grows (b.record s) := by
  obtain ⟨count, parents, outside⟩ := b
  obtain rfl : parents = a.parents := h
  cases hparents : a.parents with
  | nil => exact .of_parents hparents.symm
  | cons p rest =>
    rw [Grows, hparents]
    exact .cons ⟨rfl, List.suffix_cons ..⟩
      (List.forall₂_same.2 fun _ _ => ⟨rfl, List.suffix_refl _⟩)

theorem Grows.pop {type : String} {role : StatementRole} (h : (a.push type role).Grows b) :
    a.Grows (b.pop type) := by
  by_cases hparent : isParent type = true
  · simp only [push, hparent, if_true] at h
    obtain ⟨q, rest, hq, hrest, hb⟩ := List.forall₂_cons_left_iff.1 h
    have hpop : (b.pop type).parents = rest := by
      unfold Ancestry.pop
      rw [if_pos hparent, hb]
      cases rest <;> rfl
    have hgrows : a.Grows { b with parents := rest } := by
      refine Grows.trans ?_ hrest
      split
      · exact .of_parents rfl
      · exact .record _ rfl
    rw [Grows, hpop]
    exact hgrows
  · have hpop : b.pop type = b := if_neg hparent
    rw [hpop]
    refine Grows.trans ?_ h
    unfold push
    rw [if_neg hparent]
    split
    · exact .record _ rfl
    · exact .of_parents rfl

end Ancestry

/-! ### Frames -/

/-- A frame that stands in the same assignment, and has taken no less temps. -/
structure Frame.Restored (f g : Frame) : Prop where
  assignment : g.context.assignment = f.context.assignment
  maxLevel : f.maxLevel ≤ g.maxLevel

theorem Frame.Restored.of_eq {f g : Frame} (h : g.context.assignment = f.context.assignment)
    (hmax : g.maxLevel = f.maxLevel) : f.Restored g := ⟨h, Int.le_of_eq hmax.symm⟩

theorem Frame.Restored.refl (f : Frame) : f.Restored f := .of_eq rfl rfl

theorem Frame.Restored.trans {f g h : Frame} (hg : f.Restored g) (hh : g.Restored h) :
    f.Restored h :=
  ⟨hh.assignment.trans hg.assignment, Int.le_trans hg.maxLevel hh.maxLevel⟩

namespace Frames

/-- The frames that were there are still there. -/
def Restored (fs gs : Frames) : Prop :=
  ∀ id f, fs.frame? id = some f → ∃ g, gs.frame? id = some g ∧ f.Restored g

variable {fs gs hs : Frames} {id : FrameId}

theorem Restored.refl (fs : Frames) : fs.Restored fs := fun _ f hf => ⟨f, hf, .refl f⟩

theorem Restored.trans (h : fs.Restored gs) (h' : gs.Restored hs) : fs.Restored hs := by
  intro id f hf
  obtain ⟨g, hg, hfg⟩ := h id f hf
  obtain ⟨k, hk, hgk⟩ := h' id g hg
  exact ⟨k, hk, hfg.trans hgk⟩

theorem Restored.modify {g : Frame → Frame} (hg : ∀ f : Frame, f.Restored (g f)) :
    fs.Restored (fs.modify id g) := by
  intro id' f hf
  rw [frame?_modify, hf]
  split
  · exact ⟨g f, rfl, hg f⟩
  · exact ⟨f, rfl, .refl f⟩

theorem Restored.new (f : Frame) : fs.Restored (fs.new f).2 := by
  intro id g hg
  have hlt : id < fs.store.size := (Array.getElem?_eq_some_iff.1 hg).1
  rw [frame?_new, if_neg (Nat.ne_of_lt hlt)]
  exact ⟨g, hg, .refl g⟩

theorem Restored.assigning {v : Value}
    (h : (fs.setContext id fun c => { c with assignment := v }).Restored gs) :
    fs.Restored
      (gs.setContext id fun c => { c with assignment := (fs.context id).assignment }) := by
  intro id' f hf
  have hset : (fs.setContext id fun c => { c with assignment := v }).frame? id' =
      some (if id = id' then { f with context := { f.context with assignment := v } } else f) := by
    rw [setContext, frame?_modify, hf]
    split <;> rfl
  obtain ⟨g, hg, hfg⟩ := h id' _ hset
  rw [setContext, frame?_modify, hg]
  by_cases hid : id = id'
  · subst hid
    rw [if_pos rfl] at hfg ⊢
    refine ⟨_, rfl, ?_, hfg.maxLevel⟩
    simp only [context, hf, Option.map_some, Option.getD_some]
  · rw [if_neg hid] at hfg ⊢
    exact ⟨g, rfl, hfg⟩

end Frames

/-! ### States -/

namespace GenState

/-- The instructions without their texts, some of which may be taken back. -/
def shapes (s : GenState) : List Instr := s.trace.toList.map Instr.blanked

/-- Instructions of the usual kind have been written. -/
def Wrote (s t : GenState) : Prop :=
  ∃ is, t.shapes = s.shapes ++ is ∧ ∀ i ∈ is, i.isUsual = true

/-- Whatever was changed has been changed back. -/
structure Restored (s t : GenState) : Prop where
  ancestry : s.ancestry.Grows t.ancestry
  frames : s.frames.Restored t.frames
  written : ∃ is, t.shapes = s.shapes ++ is ∧ Balanced is

variable {s t u : GenState}

theorem Restored.of_same (hancestry : t.ancestry = s.ancestry) (htrace : t.trace = s.trace)
    (hframes : s.frames.Restored t.frames) : s.Restored t where
  ancestry := .of_parents (by rw [hancestry])
  frames := hframes
  written := ⟨[], by rw [shapes, htrace, List.append_nil, shapes], .nil⟩

theorem Restored.refl (s : GenState) : s.Restored s := .of_same rfl rfl (.refl _)

theorem Restored.trans (h : s.Restored t) (h' : t.Restored u) : s.Restored u where
  ancestry := h.ancestry.trans h'.ancestry
  frames := h.frames.trans h'.frames
  written := by
    obtain ⟨is, his, hb⟩ := h.written
    obtain ⟨js, hjs, hb'⟩ := h'.written
    exact ⟨is ++ js, by rw [hjs, his, List.append_assoc], hb.append hb'⟩

theorem Restored.wrote (h : s.Restored t) : s.Wrote t :=
  let ⟨is, his, hb⟩ := h.written
  ⟨is, his, hb.isUsual⟩

theorem Wrote.refl (s : GenState) : s.Wrote s := (Restored.refl s).wrote

theorem Wrote.trans (h : s.Wrote t) (h' : t.Wrote u) : s.Wrote u := by
  obtain ⟨is, his, hall⟩ := h
  obtain ⟨js, hjs, hall'⟩ := h'
  refine ⟨is ++ js, by rw [hjs, his, List.append_assoc], fun i hi => ?_⟩
  exact (List.mem_append.1 hi).elim (hall i) (hall' i)

end GenState

/-- Steps that restore what they change. -/
def Restores {α : Type} (m : Gen α) : Prop :=
  ∀ s, wp m (fun _ t => s.Restored t) (fun _ t => s.Wrote t) s

namespace Restores

variable {α β : Type} {m : Gen α} {k : α → Gen β} {id : FrameId}

theorem bind (hm : Restores m) (hk : ∀ a, Restores (k a)) : Restores (m >>= k) := fun s =>
  (hm s).bind fun a t ht => (hk a t).mono (fun _ _ hu => ht.trans hu)
    fun _ _ hu => ht.wrote.trans hu

theorem look {k : GenState → Gen β} (hk : ∀ s, Restores (k s)) : Restores (get >>= k) :=
  fun s => (wp_bind ..).2 (hk s s)

/-- A change of frames that leaves their assignments alone. -/
theorem modifyFrames {g : Frames → Frames} (hg : ∀ fs : Frames, fs.Restored (g fs)) :
    Restores (Gen.modifyFrames g) := fun s => .of_same rfl rfl (hg s.frames)

theorem modifyFrame {g : Frame → Frame} (hg : ∀ f : Frame, f.Restored (g f)) :
    Restores (Gen.modifyFrames (·.modify id g)) := modifyFrames fun _ => .modify hg

theorem modifyGet {g : GenState → α × GenState}
    (hg : ∀ s, (g s).2.frames = s.frames ∧ (g s).2.ancestry = s.ancestry ∧
      (g s).2.trace = s.trace) :
    Restores (modifyGet g : Gen α) := fun s =>
  let ⟨hframes, hancestry, htrace⟩ := hg s
  .of_same hancestry htrace (hframes ▸ .refl _)

theorem checks : Checks @Restores where
  pure _ s := .refl s
  incomplete s := .refl s
  throw _ s := .refl s
  bind := bind
  look _ := look
  diagnose _ _ := .of_same rfl rfl (.refl _)
  declare _ _ _ := modifyFrame fun _ => .of_eq rfl rfl
  park _ _ _ _ _ := modifyFrames fun _ => .modify fun _ => .of_eq rfl rfl

/-! ### Instructions -/

theorem wp_emit (i : Instr) (s : GenState) :
    wp (Gen.emit i) (fun _ t => t.ancestry = s.ancestry ∧ t.frames = s.frames ∧
      t.shapes = s.shapes ++ [i.blanked]) (fun _ t => t = s) s :=
  wp_instr i ⟨rfl, rfl, by simp [GenState.shapes]⟩ rfl

theorem emit {i : Instr} (hi : i.isLevel = true) : Restores (Gen.emit i) := fun s =>
  (wp_emit i s).mono (fun _ _ ⟨hancestry, hframes, hshapes⟩ => {
    ancestry := .of_parents (by rw [hancestry])
    frames := hframes ▸ .refl _
    written := ⟨_, hshapes, .level ((Instr.isLevel_blanked i).trans hi)⟩ }) fun _ _ h => h ▸ .refl s

theorem wp_begin (sh : Shift) (s : GenState) :
    wp sh.begin (fun _ t => t.ancestry = s.ancestry ∧ t.frames = s.frames ∧
      t.shapes = s.shapes ++ [sh.opening s.ancestry]) (fun _ t => t = s) s := by
  cases sh with
  | levels => exact wp_emit _ s
  | inside buffer type e => exact wp_emit _ s
  | array buffer type n => exact wp_emit _ s

theorem wp_finish (sh : Shift) (s : GenState) :
    wp sh.finish (fun _ t => t.ancestry = s.ancestry ∧ t.frames = s.frames ∧
      t.shapes = s.shapes ++ [sh.closing s.ancestry]) (fun _ t => t = s) s := by
  cases sh with
  | levels => exact wp_emit _ s
  | inside buffer type e => exact wp_emit _ s
  | array buffer type n => exact wp_emit _ s

theorem shifted (sh : Shift) (hm : Restores m) : Restores (do
    sh.begin
    let a ← m
    sh.finish
    return a) := by
  intro s
  refine (wp_bind ..).2 ((wp_begin sh s).mono (fun _ t ht => ?_) fun _ _ h => h ▸ .refl s)
  obtain ⟨hancestry, hframes, hshapes⟩ := ht
  have hopening : s.Wrote t :=
    ⟨_, hshapes, fun i hi => List.mem_singleton.1 hi ▸ sh.isUsual_opening _⟩
  refine (wp_bind ..).2 ((hm t).mono (fun a u hu => ?_) fun _ _ h => hopening.trans h)
  refine (wp_bind ..).2 ((wp_finish sh u).mono (fun _ v hv => ?_) fun _ _ h => ?_)
  · obtain ⟨hancestry', hframes', hshapes'⟩ := hv
    obtain ⟨is, his, hb⟩ := hu.written
    refine ⟨?_, ?_, _, ?_, hb.shifted sh s.ancestry u.ancestry⟩
    · exact .trans (.of_parents (by rw [hancestry]))
        (hu.ancestry.trans (.of_parents (by rw [hancestry'])))
    · exact hframes' ▸ hframes ▸ hu.frames
    · rw [hshapes', his, hshapes]
      simp
  · exact h ▸ hopening.trans hu.wrote

theorem retract (index : Nat) : Restores (Gen.retract index) := by
  intro s
  refine ⟨.of_parents rfl, .refl _, [], ?_, .nil⟩
  rw [List.append_nil, GenState.shapes, GenState.shapes, ← Array.toList_map, ← Array.toList_map]
  dsimp only
  rw [map_modify_same fun i => ?_]
  cases i <;> rfl

/-! ### Frames -/

theorem setContext {g : Context → Context} (hg : ∀ c, (g c).assignment = c.assignment) :
    Restores (Gen.setContext id g) := modifyFrame fun _ => .of_eq (hg _) rfl

theorem assigning (v : Value) {m : Gen Unit} (hm : Restores m) : Restores (do
    let s ← get
    Gen.setContext id fun c => { c with assignment := v }
    m
    Gen.setContext id fun c => { c with assignment := (s.frames.context id).assignment }) := by
  intro s
  refine (wp_bind ..).2 ((wp_bind ..).2 ?_)
  change wp (m >>= _) _ _
    { s with frames := s.frames.setContext id fun c => { c with assignment := v } }
  refine (hm _).bind fun _ t ht => ?_
  exact ⟨ht.ancestry, ht.frames.assigning, ht.written⟩

theorem within (type : String) (role : StatementRole) {body : Gen Unit} (hbody : Restores body) :
    Restores (Gen.within type role body) := by
  intro s
  refine (wp_bind ..).2 ?_
  change wp (body >>= _) _ _ { s with ancestry := s.ancestry.push type role }
  refine (hbody _).bind fun _ t ht => ?_
  exact ⟨ht.ancestry.pop, ht.frames, ht.written⟩

theorem newFrame (f : Frame) : Restores (Gen.newFrame f) := fun _ => .of_same rfl rfl (.new f)

theorem settle (frame : FrameId) : Restores (Gen.settle frame) := by
  intro s
  have hframes : s.frames.Restored (s.settled frame).frames :=
    Diagnostics.settleAll_induction
      (fun _ _ h => h.trans (.modify fun _ => .of_eq rfl rfl)) s.symbols (.refl _) _ _
  have hsettled : s.Restored (s.settled frame) := .of_same rfl rfl hframes
  exact wp_settle frame hsettled hsettled.wrote

theorem addIvarRefs (key : Key) (name : Value) (refs : List IvarRef) :
    Restores (Gen.modifyFrames (·.addIvarRefs id key name refs)) :=
  modifyFrame fun _ => .of_eq rfl rfl

theorem copyIvarRefs (id : FrameId) : Restores (Gen.modifyFrames (·.copyIvarRefs id)) :=
  modifyFrames fun fs => Frames.copyIvarRefs_induction (Frames.Restored.refl fs)
    fun _ _ _ _ _ _ _ h => h.trans (.modify fun _ => .of_eq rfl rfl)

theorem records : Records @Restores where
  toJudges := checks.judge
  symbols _ := modifyGet fun _ => ⟨rfl, rfl, rfl⟩

end Restores

/-! ### Programs -/

/-- Steps that restore what they change, as a law. -/
def restoreLaw : Law where
  Allows _ {_} m := Restores m
  Admits _ := True
  admits_part _ _ := trivial
  admits_item _ _ _ := trivial
  judges _ := Restores.checks.judge
  hiddenBy := Restores.checks.judge.hiddenBy (fun _ => Restores.look)
    (fun _ _ => Restores.modifyFrame fun _ => .of_eq rfl rfl)
    (fun _ _ => Restores.modifyFrame fun _ => .of_eq rfl rfl) Restores.retract
  emit _ _ hi := Restores.emit (Bool.and_eq_true_iff.1 hi).1
  shifted sh _ _ hm := Restores.shifted sh hm
  style _ hk := Restores.checks.style Restores.look
    (fun hi => Restores.emit (Bool.and_eq_true_iff.1 hi).1) fun s => hk s s (.refl s)
  newBuffer _ := Restores.modifyGet fun _ => ⟨rfl, rfl, rfl⟩
  setContext _ _ _ hg := Restores.setContext hg
  assigning _ v _ hm := Restores.assigning v hm
  undeclare _ _ _ := Restores.modifyFrame fun _ => .of_eq rfl rfl
  selfAssigned _ _ := Restores.modifyFrame fun _ => .of_eq rfl rfl
  ivarReference _ _ _ _ _ := (Restores.look fun _ =>
    (Restores.addIvarRefs _ _ _).bind fun _ => Restores.emit rfl).bind fun _ => Restores.emit rfl

theorem restoreLaw_declares : restoreLaw.Declares where
  setMethods _ _ := Restores.modifyGet fun _ => ⟨rfl, rfl, rfl⟩
  newBody _ _ _ _ _ _ _ hk :=
    (Restores.newFrame _).bind fun id => (hk id).allows fun h => h
  optional _ _ := Restores.modifyFrame fun _ => .of_eq rfl rfl
  records _ := Restores.records

theorem restoreLaw_runs : restoreLaw.Runs where
  anyFrame h := h
  instr _ _ hi := Restores.emit hi
  within _ := Restores.within _ _
  newFrame _ _ _ _ _ _ := Restores.newFrame _
  takeTemp _ _ := fun _ => .of_same rfl rfl (.modify fun _ => ⟨rfl, Int.le_max_left _ _⟩)
  dropTemp _ _ := Restores.modifyFrames fun _ => .modify fun _ => .of_eq rfl rfl
  unpark _ _ := Restores.modifyFrames fun _ => .modify fun _ => .of_eq rfl rfl
  declares := restoreLaw_declares.declarations
  opens := {
    settle := fun _ => Restores.settle
    copyIvarRefs := fun _ => Restores.copyIvarRefs
    recordMethod := fun _ => Restores.records.methods.recordMethod }

/-- Whatever becomes of a program, instructions of the usual kind are written for it. -/
theorem generate_usual (program : Value) {s : GenState} (hs : s.trace = #[]) :
    ∀ i ∈ ((generate program).run.run s).2.trace.toList, i.isUsual = true := by
  have hgenerate : Restores (generate program) := restoreLaw_runs.scopes.generate trivial 0
  have hwrote : s.Wrote ((generate program).run.run s).2 := by
    have hwp := hgenerate s
    unfold wp at hwp
    split at hwp
    · rename_i hrun
      rw [hrun]
      exact hwp.wrote
    · rename_i hrun
      rw [hrun]
      exact hwp
  obtain ⟨is, his, husual⟩ := hwrote
  rw [GenState.shapes, GenState.shapes, hs, List.map_nil, List.nil_append] at his
  intro i hi
  rw [← Instr.isUsual_blanked]
  exact husual _ (his ▸ List.mem_map_of_mem hi)

end ObjectiveJ
