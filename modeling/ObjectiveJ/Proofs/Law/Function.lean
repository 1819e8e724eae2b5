import ObjectiveJ.Generate.Function
import ObjectiveJ.Proofs.Law.Declaration

/-!
# Laws for functions and methods

A function or method opens a frame for its variables, writes something before its body and something
after it. A law allows what stands around the body if it allows what is done at the end of a frame
and what is recorded of methods (`Law.Opens`).
-/

namespace ObjectiveJ

open Gen

/-- A law for what is done at the end of frames, and for what is recorded of methods. -/
structure Law.Opens (L : Law) : Prop where
  settle : ∀ f inner, L.Allows f (settle inner)
  copyIvarRefs : ∀ f inner, L.Allows f (modifyFrames (·.copyIvarRefs inner))
  recordMethod : ∀ f t kind selector types owner,
    L.Allows f (Declaration.recordMethod t kind selector types owner)

/-- Steps in a frame, and checks of what is declared in another one. -/
structure Law.Heads (L : Law) (f inner : FrameId) (A : StepProp) : Prop where
  step : ∀ {α : Type} {m : Gen α}, L.Allows f m → A m
  look : ∀ {β : Type} {k : GenState → Gen β}, (∀ s s', s.Concurs s' → k s' = k s) →
    (∀ s, A (k s)) → A (MonadState.get >>= k)
  bind : ∀ {α β : Type} {m : Gen α} {k : α → Gen β}, A m → (∀ a, A (k a)) → A (m >>= k)
  shadowing : ∀ identifier name entity, A (Check.shadowing inner identifier name entity)

namespace Law

variable {L : Law} {f inner : FrameId} {t : Tree} {site : Site} {α β : Type}
  {A : StepProp}

theorem Mixed.heads : L.Heads f inner (@L.Mixed f inner) where
  step := .outside
  look := .look
  bind := .bind
  shadowing identifier name entity := .inside (L.shadowing inner identifier name entity)

theorem Heads.after (hh : L.Heads f inner @A) {m : Gen α} {k : α → Gen β} (hm : L.Allows f m)
    (hk : ∀ a, A (k a)) : A (m >>= k) := hh.bind (hh.step hm) hk

/-! ### Functions -/

theorem Heads.declareParams (hh : L.Heads f inner @A) (outer : FrameId) (params : List Value) :
    A (Function.declareParams outer inner params) := by
  induction params with
  | nil => exact hh.step (L.pure ..)
  | cons param rest ih =>
    refine hh.after (part ..) fun name => ?_
    refine hh.look (fun _ _ hs => by rw [hs.isSome_currentMethod]) fun s => ?_
    dsimp only
    split
    · exact hh.after (L.error ..) fun _ => ih
    · refine hh.bind (hh.shadowing ..) fun _ => hh.after (key _) fun k => ?_
      exact hh.after (L.declare ..) fun _ => ih

theorem functionName? (id : Value) : L.Allows f (Function.name? id) := by
  unfold Function.name?
  split
  · exact L.pure ..
  · exact L.bind (part ..) fun _ => L.pure ..

theorem writeGlobal (id name : Value) (isGlobal : Bool) :
    L.Allows f (Function.writeGlobal id name isGlobal site) := by
  unfold Function.writeGlobal
  split
  · exact L.seq (writeAt ..) <| operator ..
  · exact L.pure ..

theorem declareName (id name : Value) (isGlobal : Bool) :
    L.Allows site.frame (Function.declareName t id name isGlobal inner site) := by
  unfold Function.declareName
  dsimp only
  split
  · exact L.bind (key _) fun _ => L.seq (L.declare ..) <| writeGlobal ..
  · exact L.bind (key _) fun _ => L.seq (L.declare ..) <| writeGlobal ..

theorem writeParams (params : List Value) : L.Allows f (Function.writeParams params site) :=
  L.seq (leftParens ..) <|
    L.seq (between (comma ..) fun _ _ => L.bind (part ..) fun _ => writeAt ..) <| rightParens ..

theorem Heads.functionHead (hh : L.Heads site.frame inner @A) (id : Value) (name : Option Value) :
    A (Function.head t id name inner site) := by
  refine hh.after (fieldItems ..) fun params => hh.bind (hh.declareParams ..) fun _ => hh.step ?_
  refine L.get (fun _ _ hs => by simp only [hs.objjScope, hs.isLocal]) fun s => ?_
  cases name with
  | none => exact L.seq (textAt ..) <| L.seq (writeParams params) <| L.pure ..
  | some name =>
    refine L.seq (declareName ..) <| L.seq (textAt ..) <| L.bind (textOf _) fun _ => ?_
    exact L.seq (text ..) <| L.seq (writeParams params) <| L.pure ..

theorem isLambda (body : Value) : L.Allows site.frame (Function.isLambda t body site) := by
  unfold Function.isLambda
  split
  · exact L.pure ..
  · refine L.bind (part ..) fun statements => L.bind (ofOption _) fun vs => ?_
    exact L.get (fun _ _ hs => by rw [hs.ancestry]) fun s => L.pure ..

theorem Opens.functionTail (ho : L.Opens) (isGlobal : Bool) (name : Option Value) :
    L.Allows site.frame (Function.tail isGlobal name inner site) := by
  have hend : L.Allows site.frame (do
      modifyFrames (·.copyIvarRefs inner)
      Gen.settle inner) := L.seq (ho.copyIvarRefs ..) <| ho.settle ..
  unfold Function.tail
  split
  · exact L.seq (text ..) hend
  · exact hend

/-! ### Methods -/

theorem currentClassName : L.Allows f (Declaration.currentClassName inner) :=
  L.get (fun _ _ hs => by rw [hs.currentClass, hs.symbols]) fun _ => L.pure ..

theorem Heads.methodParams (hh : L.Heads f inner @A) (buffer : Nat) (params : List Value) :
    A (Declaration.methodParams inner buffer params) := by
  induction params with
  | nil => exact hh.step (L.pure ..)
  | cons param rest ih =>
    refine hh.after (part ..) fun identifier => hh.after (text ..) fun _ => ?_
    refine hh.after (part ..) fun name => hh.after (writeAt ..) fun _ => ?_
    split
    · exact hh.after (L.error ..) fun _ => ih
    · refine hh.bind (hh.shadowing ..) fun _ => hh.after (key _) fun k => ?_
      exact hh.after (L.declare ..) fun _ => ih

theorem Declarations.methodStart (hd : L.Declarations) (marker selector : Value)
    (types : List Value) : L.Allows f (Declaration.methodStart t marker selector types) := by
  refine L.bind (hd.startMethod ..) fun buffer => ?_
  refine L.seq (templateAt _ _ (ne_tempsHeader (n := 2) ?_)) <| L.pure ..
  simp [toString, String.toList_append, tempsHeader]

theorem methodName (className : String) (selector : Value) (buffer : Nat) :
    L.Allows f (Declaration.methodName className selector buffer) := by
  refine L.style (fun _ _ _ hs => by rw [hs]) fun s s' _ => ?_
  cases hname : s.settings.methodNames with
  | true =>
    cases hname' : s'.settings.methodNames with
    | true => exact .same (L.bind (textOf _) fun _ => text ..)
    | false =>
      simp only [Gen.textOf, if_true, Bool.false_eq_true, if_false]
      cases selector.text? with
      | none => exact .lacks ⟨hname, hname'⟩ (L.pure ..)
      | some text => exact .more rfl
  | false =>
    cases hname' : s'.settings.methodNames with
    | true =>
      simp only [Gen.textOf, if_true, Bool.false_eq_true, if_false]
      cases selector.text? with
      | none => exact .lacked ⟨hname, hname'⟩ (L.pure ..)
      | some text => exact .less rfl
    | false => exact .same (L.pure ..)

theorem Heads.methodHead (hh : L.Heads f inner @A) (selector : Value) (params : List Value)
    (buffer : Nat) : A (Declaration.methodHead selector params inner buffer site) :=
  hh.after (template _ (by simp [tempsHeader])) fun _ => hh.after currentClassName fun _ =>
    hh.after (methodName ..) fun _ => hh.after (text ..) fun _ => hh.after (L.declare ..) fun _ =>
      hh.after (L.declare ..) fun _ => hh.bind (hh.methodParams ..) fun _ => hh.step (text ..)

theorem signature (types : List Value) (buffer : Nat) :
    L.Allows f (Declaration.signature types buffer) := by
  have hplain : (Instr.template buffer
      s!",\n// argument types\n[{Declaration.quotedList types}]" true none).isPlain = true := by
    have hne := ne_tempsHeader (s := s!",\n// argument types\n[{Declaration.quotedList types}]")
      (n := 1) (by simp [toString, String.toList_append, tempsHeader])
    simpa [Instr.isPlain, Instr.isLevel] using hne
  exact L.style (fun _ _ _ hs => by rw [hs]) fun _ _ _ => .optionally (L.pure ..) hplain hplain

end Law

end ObjectiveJ
