import ObjectiveJ.Proofs.Law.Program

/-!
# Nodes that the generator comes to

The states in which the generator comes to a node are in the middle of its steps. A walker that
fails at the node makes them the last ones (`Walker.failingAt`). If a law asks something of the
states in which steps start, then the walker keeps the law unless the state at the node is such a
one. So what the law asks holds wherever the generator comes to a node (`Arrival.Comes.meets`).
-/

namespace ObjectiveJ

open Gen

/-- A failure that no step of the generator comes to. -/
def Failure.interruption : Failure :=
  .fatal { cause := .tooManyErrors .null, location := some ⟨.null, .null, .null⟩ }

theorem Failure.ne_interruption {e : Failure}
    (h : e.isLimit = true → ∃ d : Diagnostics, e = .fatal d.tooManyErrors) : e ≠ .interruption := by
  intro he
  obtain ⟨d, hd⟩ := h (he ▸ rfl)
  have hnone := he.symm.trans hd
  simp [Failure.interruption, Diagnostics.tooManyErrors] at hnone

/-- How, where and in which state the generator comes to a node. -/
structure Arrival where
  manner : Manner
  node : Value
  site : Site
  state : GenState

open Classical in
/-- A walker that fails when it comes to a node. -/
noncomputable def Walker.failingAt (walk : Walker) (a : Arrival) (e : Failure) : Walker :=
  fun manner v site => ExceptT.mk fun s =>
    if ⟨manner, v, site, s⟩ = a then (.error e, s) else (walk manner v site).run.run s

namespace Arrival

/-- The code of a node comes to a part: it fails there if the part does. The number is how deep the
parts of the part may be. -/
def ComesTo (n : Nat) (a b : Arrival) : Prop :=
  ∀ e, (step ((walk n).failingAt b e) a.manner a.node a.site).run.run a.state = (.error e, b.state)

/-- The nodes that the generator comes to from one, which are the node itself and the parts of such
nodes. -/
inductive Comes (n : Nat) (a : Arrival) : Nat → Arrival → Prop
  | here : Comes n a n a
  | part {m : Nat} {b c : Arrival} : Comes n a (m + 1) b → b.ComesTo m c → Comes n a m c

variable {L : Law} {I : FrameId → GenState → Prop} {n m : Nat} {a b : Arrival}

/-- A law that asks something of the states in which steps start: other runs do not count, and none
is interrupted. -/
structure Asks (L : Law) (I : FrameId → GenState → Prop) : Prop where
  congr : ∀ {f} {m m' : Gen Unit}, L.Allows f m → (∀ s, I f s → m'.run.run s = m.run.run s) →
    L.Allows f m'
  run : ∀ {f} {m : Gen Unit} {s t}, L.Allows f m → I f s →
    m.run.run s ≠ (.error .interruption, t)

/-- The generator comes to a node as a law asks. -/
structure Meets (L : Law) (I : FrameId → GenState → Prop) (a : Arrival) : Prop where
  manner : a.manner = .plain ∨ L.Parental
  admits : L.Admits a.node
  asked : I a.site.frame a.state

theorem Asks.failingAt (h : Asks L I) (hr : L.Scopes) (n : Nat) (hb : ¬ b.Meets L I) :
    L.Walks ((walk n).failingAt b .interruption) ∧
      (L.Parental → L.WalksBodies ((walk n).failingAt b .interruption)) := by
  refine Law.walks_iff.2 fun manner v site hmanner hv => ?_
  refine h.congr (Law.walks_iff.1 (hr.walks n) manner v site hmanner hv) fun s hs => ?_
  have hne : (⟨manner, v, site, s⟩ : Arrival) ≠ b := by
    rintro rfl
    exact hb ⟨hmanner, hv, hs⟩
  exact if_neg hne

theorem Meets.comesTo (h : Asks L I) (hr : L.Scopes) (ha : a.Meets L I) (hb : a.ComesTo m b) :
    b.Meets L I := by
  refine Classical.byContradiction fun hnot => ?_
  obtain ⟨hwalks, hbodies⟩ := h.failingAt hr m hnot
  have hstep :=
    Law.walks_iff.1 (hr.step hwalks hbodies) a.manner a.node a.site ha.manner ha.admits
  exact h.run hstep ha.asked (hb .interruption)

/-- It is enough that the generator comes to the parts of a node as the law asks. -/
theorem Comes.of_parts (h : Asks L I) (hr : L.Scopes)
    (ha : ∀ {m b}, a.ComesTo m b → b.Meets L I) (hb : Comes n a m b) :
    b = a ∧ m = n ∨ b.Meets L I := by
  induction hb with
  | here => exact .inl ⟨rfl, rfl⟩
  | part _ hc ih =>
    right
    rcases ih with ⟨rfl, -⟩ | ih
    · exact ha hc
    · exact ih.comesTo h hr hc

theorem Comes.meets (h : Asks L I) (hr : L.Scopes) (ha : a.Meets L I) (hb : Comes n a m b) :
    b.Meets L I := by
  rcases hb.of_parts h hr (ha.comesTo h hr) with ⟨rfl, -⟩ | hmeets
  · exact ha
  · exact hmeets

end Arrival

end ObjectiveJ
