import ObjectiveJ.Proofs.Run

/-!
# Two runs

Two runs of the generator that start in related states come to the same result or the same failure,
in states that are related again. Runs may be excused from that by failures of some kind.
-/

namespace ObjectiveJ

open Gen

/-- A run ends in a failure of a kind. -/
def FailsBy {α : Type} (C : Failure → Prop) (r : Except Failure α) : Prop := ∃ e, r = .error e ∧ C e

/-- The outcomes of two runs are the same, unless one of them is excused. -/
def SameOutcome {α : Type} (C C' : Failure → Prop) (R : GenState → GenState → Prop)
    (x x' : Except Failure α × GenState) : Prop :=
  FailsBy C x.1 ∨ FailsBy C' x'.1 ∨ x'.1 = x.1 ∧ R x.2 x'.2

/-- Two steps take related states to related ones, with the same outcome. -/
def Relates {α : Type} (C C' : Failure → Prop) (P R : GenState → GenState → Prop)
    (m m' : Gen α) : Prop :=
  ∀ s s', P s s' → SameOutcome C C' R (m.run.run s) (m'.run.run s')

variable {α β : Type} {C C' : Failure → Prop} {m m' : Gen α} {k k' : α → Gen β} {s t : GenState}
  {P Q R : GenState → GenState → Prop}

theorem run_bind_ok {a : α} (h : m.run.run s = (.ok a, t)) :
    (m >>= k).run.run s = (k a).run.run t := by
  rw [run_bind, h]

theorem run_bind_error {e : Failure} (h : m.run.run s = (.error e, t)) :
    (m >>= k).run.run s = (.error e, t) := by
  rw [run_bind, h]

theorem FailsBy.bind (h : FailsBy C (m.run.run s).1) : FailsBy C ((m >>= k).run.run s).1 := by
  obtain ⟨e, he, hcrash⟩ := h
  rw [run_bind_error (Prod.ext he rfl)]
  exact ⟨e, rfl, hcrash⟩

namespace Relates

theorem pure (a : α) : Relates C C' P P (pure a) (pure a) := fun _ _ h => .inr (.inr ⟨rfl, h⟩)

theorem throw (e : Failure) (hR : ∀ s s', P s s' → R s s') :
    Relates C C' P R (throw e : Gen α) (throw e) :=
  fun s s' h => .inr (.inr ⟨rfl, hR s s' h⟩)

theorem bind (hQ : ∀ s s', R s s' → Q s s') (hm : Relates C C' P R m m')
    (hk : ∀ a, Relates C C' R Q (k a) (k' a)) : Relates C C' P Q (m >>= k) (m' >>= k') := by
  intro s s' h
  rcases hm s s' h with hcrash | hcrash | ⟨heq, ht⟩
  · exact .inl hcrash.bind
  · exact .inr (.inl hcrash.bind)
  · rcases hrun : (m.run.run s).1 with e | a
    · rw [run_bind_error (Prod.ext hrun rfl), run_bind_error (Prod.ext (heq.trans hrun) rfl)]
      exact .inr (.inr ⟨rfl, hQ _ _ ht⟩)
    · rw [run_bind_ok (Prod.ext hrun rfl), run_bind_ok (Prod.ext (heq.trans hrun) rfl)]
      exact hk a _ _ ht

theorem mono (hR : ∀ s s', R s s' → Q s s') (hm : Relates C C' P R m m') : Relates C C' P Q m m' :=
  fun s s' h => (hm s s' h).imp_right (Or.imp_right fun ⟨heq, ht⟩ => ⟨heq, hR _ _ ht⟩)

theorem look {k k' : GenState → Gen β} (hk : ∀ s s', P s s' → Relates C C' P R (k s) (k' s')) :
    Relates C C' P R (get >>= k) (get >>= k') :=
  fun s s' h => hk s s' h s s' h

theorem look_same {k : GenState → Gen β} (hsame : ∀ s s', P s s' → k s' = k s)
    (hk : ∀ s, Relates C C' P R (k s) (k s)) : Relates C C' P R (get >>= k) (get >>= k) :=
  look fun s s' h => hsame s s' h ▸ hk s

theorem modifyGet {g g' : GenState → α × GenState}
    (h : ∀ s s', P s s' → (g' s').1 = (g s).1 ∧ R (g s).2 (g' s').2) :
    Relates C C' P R (modifyGet g : Gen α) (modifyGet g') :=
  fun s s' hs => .inr (.inr ⟨congrArg Except.ok (h s s' hs).1, (h s s' hs).2⟩)

theorem modify {g g' : GenState → GenState} (h : ∀ s s', P s s' → R (g s) (g' s')) :
    Relates C C' P R (modify g : Gen Unit) (modify g') :=
  fun s s' hs => .inr (.inr ⟨rfl, h s s' hs⟩)

end Relates

end ObjectiveJ
