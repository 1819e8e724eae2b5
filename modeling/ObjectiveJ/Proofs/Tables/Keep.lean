import ObjectiveJ.Proofs.Law.Part
import ObjectiveJ.Proofs.Run
import ObjectiveJ.Proofs.Tables.Register

/-!
# What steps do to the symbol tables

`Leads P m Q E` says that a step leads from symbol tables with `P` to symbol tables with `Q`, or
fails with symbol tables with `E`. Most steps leave the tables alone and so keep every property of
them, which makes a law for each property (`tableLaw`).
-/

namespace ObjectiveJ

open Gen

variable {α β : Type} {P E : Symbols → Prop}

/-- From symbol tables with `P` a step leads to symbol tables with `Q`, or fails with symbol tables
with `E`. -/
structure Leads (P : Symbols → Prop) (m : Gen α) (Q : α → Symbols → Prop) (E : Symbols → Prop) :
    Prop where
  wp : ∀ s, P s.symbols → Gen.wp m (fun a t => Q a t.symbols) (fun _ t => E t.symbols) s

/-- A step keeps a property of the symbol tables. -/
def Keeps (P : Symbols → Prop) {α : Type} (m : Gen α) : Prop := Leads P m (fun _ => P) P

namespace Leads

variable {m : Gen α} {k : α → Gen β} {Q : α → Symbols → Prop} {R : β → Symbols → Prop}

theorem bind (hm : Leads P m Q E) (hk : ∀ a, Leads (Q a) (k a) R E) : Leads P (m >>= k) R E where
  wp s hs := (hm.wp s hs).bind fun a t ht => (hk a).wp t ht

theorem mono {P' : Symbols → Prop} {Q' : α → Symbols → Prop} {E' : Symbols → Prop}
    (h : Leads P m Q E) (hP : ∀ s, P' s → P s) (hQ : ∀ a s, Q a s → Q' a s) (hE : ∀ s, E s → E' s) :
    Leads P' m Q' E' where
  wp s hs := (h.wp s (hP s.symbols hs)).mono (fun a t ht => hQ a t.symbols ht) fun _ t ht =>
    hE t.symbols ht

theorem step (hE : ∀ s, P s → E s) (hm : Keeps P m) (hk : ∀ a, Leads P (k a) R E) :
    Leads P (m >>= k) R E :=
  bind (hm.mono (fun _ h => h) (fun _ _ h => h) hE) hk

theorem pure {a : α} (h : ∀ s, P s → Q a s) : Leads P (pure a) Q E := ⟨fun s hs => h s.symbols hs⟩

/-- It is enough to go from each of the tables that have a property. -/
theorem fixed (h : ∀ s, P s → Leads (· = s) m Q E) : Leads P m Q E :=
  ⟨fun s hs => (h s.symbols hs).wp s rfl⟩

theorem get {k : GenState → Gen β} (hk : ∀ s, P s.symbols → Leads (· = s.symbols) (k s) R E) :
    Leads P (MonadState.get >>= k) R E := ⟨fun s hs => (hk s hs).wp s rfl⟩

theorem ofOption_bind {o : Option α} (hE : ∀ s, P s → E s)
    (hk : ∀ a, o = some a → Leads P (k a) R E) : Leads P (Gen.ofOption o >>= k) R E := by
  cases o with
  | none => exact ⟨fun s hs => hE s.symbols hs⟩
  | some a => exact hk a rfl

theorem modifySymbols {Q : Unit → Symbols → Prop} {g : Symbols → Symbols}
    (h : ∀ s, P s → Q () (g s)) : Leads P (Gen.modifySymbols g) Q E := ⟨fun s hs => h s.symbols hs⟩

theorem new {s₀ : Symbols} {d : Definition} {Q : DefinitionId → Symbols → Prop}
    (h : Q s₀.store.size (s₀.new d).2) : Leads (· = s₀) (modifyGet fun s =>
      let (id, symbols) := s.symbols.new d
      (id, { s with symbols }) : Gen DefinitionId) Q E := by
  refine ⟨fun s hs => ?_⟩
  subst hs
  exact h

theorem register {Q : Symbols → Prop} {f : Symbols → Registration} (hE : ∀ s, P s → E s)
    (hQ : ∀ s, Q s → E s) (h : ∀ s, P s → (f s).Holds Q) :
    Leads P (Gen.register f) (fun _ => Q) E := by
  refine ⟨fun s hs => ?_⟩
  have hf := h s.symbols hs
  unfold Gen.register
  rw [wp_bind, wp_get]
  split
  · rename_i hdone
    rwa [hdone] at hf
  · exact hE s.symbols hs
  · rename_i t hfailed
    rw [hfailed] at hf
    exact hQ t hf

end Leads

/-! ### Steps that leave the tables alone -/

namespace Keeps

theorem bind {m : Gen α} {k : α → Gen β} (hm : Keeps P m) (hk : ∀ a, Keeps P (k a)) :
    Keeps P (m >>= k) := Leads.bind hm hk

theorem symbols {m : Gen α} (h : Keeps P m) {s : GenState} (hs : P s.symbols) :
    P (m.run.run s).2.symbols := by
  have hwp := h.wp s hs
  unfold Gen.wp at hwp
  split at hwp
  · rename_i hm
    rw [hm]
    exact hwp
  · rename_i hm
    rw [hm]
    exact hwp

/-- A step that never changes the tables keeps all that is known of them. -/
theorem of_run {m : Gen α} (h : ∀ s, (m.run.run s).2.symbols = s.symbols) : Keeps P m := by
  refine ⟨fun s hs => ?_⟩
  have hsame := h s
  unfold Gen.wp
  split
  · rename_i hm
    rw [hm] at hsame
    exact (congrArg P hsame).mpr hs
  · rename_i hm
    rw [hm] at hsame
    exact (congrArg P hsame).mpr hs

theorem modifyGet {g : GenState → α × GenState} (hg : ∀ s, (g s).2.symbols = s.symbols) :
    Keeps P (modifyGet g : Gen α) := of_run hg

theorem modify {g : GenState → GenState} (hg : ∀ s, (g s).symbols = s.symbols) :
    Keeps P (modify g : Gen Unit) := of_run hg

theorem modifyFrames (g : Frames → Frames) : Keeps P (Gen.modifyFrames g) := modify fun _ => rfl

theorem emit (i : Instr) : Keeps P (Gen.emit i) := ⟨fun _ hs => wp_instr i hs hs⟩

end Keeps

theorem Keeps.get : Keeps P (MonadState.get : Gen GenState) := of_run fun _ => rfl

theorem Keeps.look {k : GenState → Gen β} (hk : ∀ s, Keeps P (k s)) :
    Keeps P (MonadState.get >>= k) :=
  Keeps.get.bind hk

theorem keeps_checks : Checks (@Keeps P) where
  pure _ := Keeps.of_run fun _ => rfl
  incomplete := Keeps.of_run fun _ => rfl
  throw _ := Keeps.of_run fun _ => rfl
  bind := Keeps.bind
  look _ := Keeps.look
  diagnose _ := Keeps.modify fun _ => rfl
  declare _ _ _ := Keeps.modifyFrames _
  park _ _ _ _ _ := Keeps.modifyFrames _

/-- The text under the field for names has no plus sign. -/
def Tree.HasPlainName (t : Tree) : Prop := ∀ s, t.get? "name" = some (.str s) → '+' ∉ s.toList

instance (t : Tree) : Decidable t.HasPlainName :=
  match h : t.get? "name" with
  | some (.str s) =>
    decidable_of_iff ('+' ∉ s.toList)
      ⟨fun hs r hr => by
        obtain rfl : s = r := Json.str.inj (Value.data.inj (Option.mem_unique h hr))
        exact hs, fun hs => hs s h⟩
  | none => isTrue fun r hr => by rw [h] at hr; cases hr
  | some (.data .null) | some (.data (.bool _)) | some (.data (.int _)) | some (.data (.float _))
  | some (.data (.arr _)) | some (.data (.obj _)) | some (.list _) | some (.tuple _)
  | some (.location _) | some (.tree _) | some (.accessors ..) =>
    isTrue fun r hr => by rw [h] at hr; cases hr

/-- No name in a value has a plus sign. -/
def Value.HasPlainNames (v : Value) : Prop := ∀ t ∈ v.nodes, t.HasPlainName

instance (v : Value) : Decidable v.HasPlainNames := inferInstanceAs (Decidable (∀ t ∈ v.nodes, _))

theorem keeps_free : Free (@Keeps P) where
  toJudges := keeps_checks.judge
  lookAt := Keeps.look
  instr := Keeps.emit
  modifyFrame _ _ _ := Keeps.modifyFrames _
  newBuffer := Keeps.modifyGet fun _ => rfl
  retract _ := Keeps.modify fun _ => rfl

/-- A property of the symbol tables as a law, for programs all nodes of which have another one. -/
def tableLaw (P : Symbols → Prop) (Q : Tree → Prop) : Law := (keeps_free (P := P)).law Q

theorem Leads.fatalAt {Q : α → Symbols → Prop} (hE : ∀ s, P s → E s) (location : Option Location)
    (cause : Cause) : Leads P (Gen.fatalAt location cause) Q E := by
  refine Leads.step hE Keeps.get fun s => Leads.ofOption_bind hE fun line _ => ?_
  dsimp only
  split <;> exact ⟨fun s hs => hE s.symbols hs⟩

theorem Keeps.ivarType (buffer : Nat) (typeName : Value) :
    Keeps P (Declaration.ivarType buffer typeName) :=
  Keeps.look fun s => by
    split
    · exact Keeps.emit _
    · exact keeps_checks.pure ()

/-- What every law allows keeps every property of the tables. -/
theorem Keeps.of_law {m : Gen α} (h : (tableLaw P fun _ => True).Allows 0 m) : Keeps P m := h

theorem Keeps.openMethods : Keeps P Declaration.openMethods :=
  (modifyGet fun _ => rfl).bind fun _ => (modifyGet fun _ => rfl).bind fun _ => modify fun _ => rfl

/-! ### Programs -/

theorem Keeps.settle (frame : FrameId) : Keeps P (Gen.settle frame) := by
  refine Leads.get fun s hs => Leads.bind (Q := fun _ => P) ⟨fun _ _ => hs⟩ fun _ => ?_
  split
  · exact keeps_checks.incomplete
  · exact keeps_checks.pure _

theorem Keeps.within (type : String) (role : StatementRole) {body : Gen Unit}
    (hbody : Keeps P body) : Keeps P (Gen.within type role body) := by
  unfold Gen.within
  refine (modify ?_).bind fun _ => hbody.bind fun _ => modify ?_
  · exact fun _ => rfl
  · exact fun _ => rfl

/-- What declarations keep, whole programs do. -/
theorem tableLaw_runs {Q : Tree → Prop} (hd : (tableLaw P Q).Declarations)
    (hm : Methods (@Keeps P)) : (tableLaw P Q).Runs where
  anyFrame h := h
  instr _ _ _ := Keeps.emit _
  within _ := Keeps.within _ _
  newFrame _ _ _ _ _ _ := Keeps.modifyGet fun _ => rfl
  takeTemp _ _ := Keeps.modifyGet fun _ => rfl
  dropTemp _ _ := Keeps.modifyFrames _
  unpark _ _ := Keeps.modifyFrames _
  declares := hd
  opens := {
    settle := fun _ => Keeps.settle
    copyIvarRefs := fun _ _ => Keeps.modifyFrames _
    recordMethod := fun _ => hm.recordMethod }

end ObjectiveJ
