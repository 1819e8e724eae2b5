import ObjectiveJ.Proofs.Law.Arrival
import ObjectiveJ.Proofs.Law.Part
import ObjectiveJ.Proofs.Balance.Walk

/-!
# Statements seen while a node is compiled

The ancestry keeps the statements seen in each parent, and layout rules and checks ask for the last
one of them. A node that is compiled leaves a `Passage` behind: it is entered and left, and so are
nodes inside of it. `Passage.seen` lists what of that is seen in the parent around the node. A
parent keeps to itself what is inside of it. A plain statement does not, nor does an expression, so
an object or a function in a statement is seen after the statement, in the same list.
-/

namespace ObjectiveJ

open Gen

variable {type : String}

/-- A node that is entered and left, and the nodes that are entered and left in between. -/
inductive Passage where
  | node (type : String) (role : StatementRole) (inside : List Passage)

namespace Ancestry

mutual

def pass : Passage → Ancestry → Ancestry
  | .node type role inside, a => (passAll inside (a.push type role)).pop type

def passAll : List Passage → Ancestry → Ancestry
  | [], a => a
  | p :: rest, a => passAll rest (pass p a)

end

theorem passAll_append (ps qs : List Passage) (a : Ancestry) :
    a.passAll (ps ++ qs) = (a.passAll ps).passAll qs := by
  induction ps generalizing a with
  | nil => rfl
  | cons p rest ih =>
    rw [List.cons_append, passAll, passAll]
    exact ih _

end Ancestry

namespace Passage

mutual

def size : Passage → Nat
  | .node _ _ inside => 1 + sizeOfAll inside

def sizeOfAll : List Passage → Nat
  | [] => 0
  | p :: rest => p.size + sizeOfAll rest

end

mutual

/-- The statements seen in the parent around a node, the last one first, if so many nodes were
entered before. -/
def seen : Passage → Nat → List Statement
  | .node type role inside, count =>
    if Ancestry.isParent type then [⟨count, type, role⟩]
    else if Ancestry.isStatement type then seenInAll inside (count + 1) ++ [⟨count, type, role⟩]
    else seenInAll inside (count + 1)

def seenInAll : List Passage → Nat → List Statement
  | [], _ => []
  | p :: rest, count => seenInAll rest (count + p.size) ++ p.seen count

end

end Passage

namespace Ancestry

/-- Statements are seen in the current parent, which there is. -/
def recordAll (new : List Statement) (count : Nat) (a : Ancestry) : Ancestry :=
  { a with
    count
    parents := a.parents.modifyHead fun p => { p with statements := new ++ p.statements } }

variable {a : Ancestry}

theorem statements_recordAll (ha : a.parents ≠ []) (new : List Statement) (count : Nat) :
    (a.recordAll new count).statements = new ++ a.statements := by
  obtain ⟨_, _ | ⟨p, rest⟩, _⟩ := a
  · exact absurd rfl ha
  · rfl

theorem statements_eq {b : Ancestry} (h : a.parents = b.parents) (hb : b.parents ≠ []) :
    a.statements = b.statements := by
  obtain ⟨_, _ | ⟨p, rest⟩, _⟩ := b
  · exact absurd rfl hb
  · rw [statements, h]
    rfl

/-- A parent is entered in the list of the parent around it, and starts a list. -/
theorem push_parent (h : isParent type = true) (ha : a.parents ≠ []) (role : StatementRole) :
    a.push type role =
      { a.recordAll [⟨a.count, type, role⟩] (a.count + 1) with
        parents := ⟨⟨a.count, type, role⟩, []⟩ ::
          (a.recordAll [⟨a.count, type, role⟩] (a.count + 1)).parents } := by
  obtain ⟨_, _ | ⟨p, rest⟩, _⟩ := a
  · exact absurd rfl ha
  · simp [push, h, record, recordAll]

theorem push_statement (hp : ¬ isParent type = true) (h : isStatement type = true)
    (ha : a.parents ≠ []) (role : StatementRole) :
    a.push type role = a.recordAll [⟨a.count, type, role⟩] (a.count + 1) := by
  obtain ⟨_, _ | ⟨p, rest⟩, _⟩ := a
  · exact absurd rfl ha
  · simp [push, hp, h, record, recordAll]

theorem push_expression (hp : ¬ isParent type = true) (h : ¬ isStatement type = true)
    (role : StatementRole) : a.push type role = a.recordAll [] (a.count + 1) := by
  obtain ⟨_, _ | ⟨p, rest⟩, _⟩ := a
  · simp [push, hp, h, recordAll]
  · simp [push, hp, h, recordAll]

@[simp] theorem count_recordAll (new : List Statement) (count : Nat) :
    (a.recordAll new count).count = count := rfl

theorem parents_recordAll_ne (ha : a.parents ≠ []) (new : List Statement) (count : Nat) :
    (a.recordAll new count).parents ≠ [] := by
  obtain ⟨_, _ | ⟨p, rest⟩, _⟩ := a
  · exact absurd rfl ha
  · nofun

theorem recordAll_recordAll (old new : List Statement) (count count' : Nat) :
    (a.recordAll old count).recordAll new count' = a.recordAll (new ++ old) count' := by
  obtain ⟨_, _ | ⟨p, rest⟩, _⟩ := a
  · rfl
  · simp [recordAll]

/-- What was seen in a parent is dropped when it is left. -/
theorem pop_recordAll_parent (h : isParent type = true) (ha : a.parents ≠ []) (p : Parent)
    (new : List Statement) (count : Nat) :
    ({ a with parents := p :: a.parents }.recordAll new count).pop type = { a with count } := by
  obtain ⟨_, _ | ⟨q, rest⟩, _⟩ := a
  · exact absurd rfl ha
  · simp [recordAll, pop, h]

open Passage

mutual

/-- A node that was compiled adds to the list of the parent around it what is seen of the node, and
changes nothing else. -/
theorem pass_eq (p : Passage) {a : Ancestry} (ha : a.parents ≠ []) :
    a.pass p = a.recordAll (p.seen a.count) (a.count + p.size) := by
  obtain ⟨type, role, inside⟩ := p
  rw [pass, seen, size, ← Nat.add_assoc]
  by_cases hparent : isParent type = true
  · rw [if_pos hparent, push_parent hparent ha, passAll_eq inside (List.cons_ne_nil _ _),
      pop_recordAll_parent hparent (parents_recordAll_ne ha _ _)]
    rfl
  · have hpop (b : Ancestry) : b.pop type = b := if_neg hparent
    by_cases hstatement : isStatement type = true
    · rw [if_neg hparent, if_pos hstatement, hpop, push_statement hparent hstatement ha,
        passAll_eq inside (parents_recordAll_ne ha _ _), recordAll_recordAll, count_recordAll]
    · rw [if_neg hparent, if_neg hstatement, hpop, push_expression hparent hstatement,
        passAll_eq inside (parents_recordAll_ne ha _ _), recordAll_recordAll, count_recordAll,
        List.append_nil]

theorem passAll_eq (ps : List Passage) {a : Ancestry} (ha : a.parents ≠ []) :
    a.passAll ps = a.recordAll (seenInAll ps a.count) (a.count + sizeOfAll ps) := by
  cases ps with
  | nil =>
    obtain ⟨_, _ | ⟨p, rest⟩, _⟩ := a
    · rfl
    · rfl
  | cons p rest =>
    rw [passAll, pass_eq p ha, passAll_eq rest (parents_recordAll_ne ha _ _), recordAll_recordAll,
      seenInAll, sizeOfAll, count_recordAll, Nat.add_assoc]

end

end Ancestry

/-! ### The law -/

/-- Steps that take the nodes around from states of a kind to related ones. -/
def Moves (I : Ancestry → Prop) (R : Ancestry → Ancestry → Prop) {α : Type} (m : Gen α) : Prop :=
  ∀ s, I s.ancestry →
    wp m (fun _ t => R s.ancestry t.ancestry) (fun e _ => e ≠ .interruption) s

/-- A node is entered, and left after related steps. -/
def Ancestry.Passes (R : Ancestry → Ancestry → Prop) (t : Tree) (manner : Manner)
    (a b : Ancestry) : Prop :=
  ∃ c, R (a.push (layoutType t manner) (roleOf t)) c ∧ b = c.pop (layoutType t manner)

/-- How the nodes around change while some nodes are entered and left. -/
structure Ancestry.Ways (N : String → StatementRole → Prop) (I : Ancestry → Prop)
    (R : Ancestry → Ancestry → Prop) : Prop where
  refl : ∀ a, R a a
  trans : ∀ {a b c}, R a b → R b c → R a c
  keep : ∀ {a b}, I a → R a b → I b
  enter : ∀ {type role a}, N type role → I a → I (a.push type role)
  leave : ∀ {type role a b}, N type role → I a → R (a.push type role) b → R a (b.pop type)

namespace Ancestry.Ways

variable {N : String → StatementRole → Prop} {I : Ancestry → Prop} {R : Ancestry → Ancestry → Prop}
  {α β : Type} (h : Ways N I R)

include h

theorem modifyGet {g : GenState → α × GenState} (hg : ∀ s, (g s).2.ancestry = s.ancestry) :
    Moves I R (modifyGet g : Gen α) := by
  intro s _
  change R s.ancestry (g s).2.ancestry
  rw [hg]
  exact h.refl _

theorem bind {m : Gen α} {k : α → Gen β} (hm : Moves I R m) (hk : ∀ a, Moves I R (k a)) :
    Moves I R (m >>= k) := fun s hs =>
  (hm s hs).bind fun a t ht => (hk a t (h.keep hs ht)).imp fun _ _ hu => h.trans ht hu

omit h in
theorem look {k : GenState → Gen β} (hk : ∀ s, Moves I R (k s)) : Moves I R (get >>= k) :=
  fun s hs => (wp_bind ..).2 (hk s s hs)

omit h in
theorem wp_within {role : StatementRole} {body : Gen Unit} (hbody : Moves I R body) {s : GenState}
    (hs : I (s.ancestry.push type role)) : wp (Gen.within type role body)
      (fun _ t => ∃ b, R (s.ancestry.push type role) b ∧ t.ancestry = b.pop type)
      (fun e _ => e ≠ .interruption) s := by
  refine (wp_bind ..).2 ?_
  change wp (body >>= _) _ _ { s with ancestry := s.ancestry.push type role }
  exact (hbody _ hs).bind fun _ t ht => ⟨t.ancestry, ht, rfl⟩

theorem checks : Checks fun {_} m => Moves I R m where
  pure _ _ _ := h.refl _
  incomplete _ _ := nofun
  throw he _ _ := Failure.ne_interruption he
  bind := h.bind
  look _ := look
  diagnose _ := h.modifyGet fun _ => rfl
  declare _ _ _ := h.modifyGet fun _ => rfl
  park _ _ _ _ _ := h.modifyGet fun _ => rfl

theorem wide : Wide (fun {_} m => Moves I R m) N where
  toJudges := h.checks.judge
  lookAt := look
  instr i _ _ := wp_instr i (h.refl _) nofun
  change hg := h.modifyGet fun s => (hg s).1
  within hN hbody _ hs := (wp_within hbody (h.enter hN hs)).imp fun _ _ ⟨_, hb, ht⟩ =>
    ht ▸ h.leave hN hs hb
  settle frame _ _ := wp_settle frame (h.refl _) nofun

/-- The law for values the nodes of which have a property. -/
abbrev law (Q : Tree → Prop) : Law := h.wide.free.law Q

variable {Q : Tree → Prop} (hN : ∀ type role, Enters Q type role → N type role)

include hN

theorem scopes : (h.law Q).Scopes := (h.wide.runs hN).scopes

omit hN in
theorem asks : Arrival.Asks (h.law Q) fun _ s => I s.ancestry where
  congr hm hsame s hs := by
    have hrun := hm s hs
    rw [wp, ← hsame s hs] at hrun
    exact hrun
  run hm hs hrun := (hm _ hs).error hrun rfl

variable {n m k : Nat} {t : Tree} {manner : Manner} {site : Site} {s : GenState} {b : Arrival}
  (ht : (h.law Q).Owns t) (hp : Ancestry.isParent t.type.name = true → (h.law Q).Parental)
  (hmanner : manner = .plain ∨ (h.law Q).Parental)
  (hs : I (s.ancestry.push (layoutType t manner) (roleOf t)))

include ht hp hmanner hs

theorem wp_step {walk : Walker} (hw : (h.law Q).Walks walk)
    (hb : (h.law Q).Parental → (h.law Q).WalksBodies walk) :
    wp (step walk manner (.tree t) site) (fun _ u => Passes R t manner s.ancestry u.ancestry)
      (fun e _ => e ≠ .interruption) s := by
  have hr : (h.law Q).Scopes := h.scopes hN
  have hcode := hr.compiles hw hb ht hp hmanner { site with type := layoutType t manner }
  exact wp_within (hr.hooked (f := site.frame) hcode) hs

theorem wp_walk :
    wp (walk n manner (.tree t) site) (fun _ u => Passes R t manner s.ancestry u.ancestry)
      (fun e _ => e ≠ .interruption) s := by
  cases n with
  | zero => nofun
  | succ n =>
    obtain ⟨hw, hb⟩ := (h.scopes hN).walks n
    exact h.wp_step hN ht hp hmanner hs hw hb

/-- The nodes around, when the generator comes to something inside of a node. -/
theorem comes (hb : Arrival.Comes n ⟨manner, .tree t, site, s⟩ k b) (hk : k < n) :
    I b.state.ancestry := by
  have hparts {m : Nat} {b : Arrival} (hb : Arrival.ComesTo m ⟨manner, .tree t, site, s⟩ b) :
      b.Meets (h.law Q) fun _ s => I s.ancestry := by
    by_contra hnot
    obtain ⟨hw, hbodies⟩ := h.asks.failingAt (h.scopes hN) m hnot
    exact (h.wp_step hN ht hp hmanner hs hw hbodies).error (hb .interruption) rfl
  rcases hb.of_parts h.asks (h.scopes hN) hparts with ⟨-, hkn⟩ | hmeets
  · exact absurd hkn hk.ne
  · exact hmeets.asked

end Ancestry.Ways

/-- Nothing is seen while only expressions that are no parents are entered. -/
theorem Ancestry.unseen (parents : List Parent) :
    Ways (fun type _ => (isParent type || isStatement type) = false) (·.parents = parents)
      fun a b => b.parents = a.parents where
  refl _ := rfl
  trans hab hbc := hbc.trans hab
  keep ha hab := hab.trans ha
  enter htype ha := by
    rw [Bool.or_eq_false_iff] at htype
    simpa [push, htype] using ha
  leave htype _ hab := by
    rw [Bool.or_eq_false_iff] at htype
    simpa [push, pop, htype] using hab

/-- Nodes are passed one after the other. -/
theorem Ancestry.passes :
    Ways (fun _ _ => True) (fun _ => True) fun a b => ∃ ps, b = a.passAll ps where
  refl _ := ⟨[], rfl⟩
  trans := by
    rintro a _ _ ⟨ps, rfl⟩ ⟨qs, rfl⟩
    exact ⟨ps ++ qs, (passAll_append ps qs a).symm⟩
  keep _ _ := trivial
  enter _ _ := trivial
  leave _ _ := by
    rintro ⟨inside, rfl⟩
    exact ⟨[.node _ _ inside], rfl⟩

/-! ### Statements of a parent -/

namespace Passage

mutual

/-- Statements are numbered in the order in which they are entered. -/
theorem le_serial_of_mem_seen (p : Passage) {count : Nat} {x : Statement} (h : x ∈ p.seen count) :
    count ≤ x.serial := by
  obtain ⟨type, role, inside⟩ := p
  rw [seen] at h
  split at h
  · rw [List.mem_singleton.1 h]
  split at h
  · rcases List.mem_append.1 h with h | h
    · exact Nat.le_of_succ_le (le_serial_of_mem_seenInAll inside h)
    · rw [List.mem_singleton.1 h]
  · exact Nat.le_of_succ_le (le_serial_of_mem_seenInAll inside h)

theorem le_serial_of_mem_seenInAll (ps : List Passage) {count : Nat} {x : Statement}
    (h : x ∈ seenInAll ps count) : count ≤ x.serial := by
  cases ps with
  | nil => rw [seenInAll] at h; cases h
  | cons p rest =>
    rw [seenInAll] at h
    rcases List.mem_append.1 h with h | h
    · exact Nat.le_of_add_right_le (le_serial_of_mem_seenInAll rest h)
    · exact le_serial_of_mem_seen p h

end

/-- A node is the last statement seen of itself if it is a parent, and else if nothing inside of it
is seen. -/
theorem head?_seen_iff (h : (Ancestry.isParent type || Ancestry.isStatement type) = true)
    (role : StatementRole) (inside : List Passage) (count : Nat) (old : List Statement) :
    ((Passage.node type role inside).seen count ++ old).head? = some ⟨count, type, role⟩ ↔
      Ancestry.isParent type = true ∨ seenInAll inside (count + 1) = [] := by
  rw [seen]
  by_cases hparent : Ancestry.isParent type = true
  · simp [hparent]
  · have hstatement : Ancestry.isStatement type = true := by simpa [hparent] using h
    rw [if_neg hparent, if_pos hstatement, List.append_assoc]
    cases hinside : seenInAll inside (count + 1) with
    | nil => simp
    | cons x rest =>
      -- what is inside is entered later
      have hlater : count + 1 ≤ x.serial :=
        le_serial_of_mem_seenInAll inside (hinside ▸ (.head _))
      constructor
      · intro hx
        cases hx
        exact absurd hlater (Nat.not_succ_le_self count)
      · rintro (h | h)
        · exact absurd h hparent
        · cases h

end Passage

namespace Ancestry

variable {a : Ancestry} {type : String}

theorem previousType_push (h : (isParent type || isStatement type) = true) (ha : a.parents ≠ [])
    (role : StatementRole) :
    (a.push type role).previousType type = a.enclosing.map (·.type) := by
  obtain ⟨count, _ | ⟨p, rest⟩, outside⟩ := a
  · exact absurd rfl ha
  by_cases hparent : isParent type = true
  · simp [previousType, push, record, enclosing, statements, hparent, List.head?_eq_getElem?]
  · have hstatement : isStatement type = true := by simpa [hparent] using h
    simp [previousType, push, record, enclosing, statements, hparent, hstatement,
      List.head?_eq_getElem?]

end Ancestry

/-! ### Plain statements -/

/-- A node that is neither a parent nor a statement. -/
abbrev Ancestry.IsUnseen (t : Tree) : Prop :=
  (isParent t.type.name || isStatement t.type.name) = false

/-- A statement in which there are neither parents nor other statements. -/
structure Ancestry.IsPlainStatement (t : Tree) : Prop where
  statement : isStatement t.type.name = true
  parent : isParent t.type.name = false
  inside : ∀ x ∈ nodesOfFields t.fields, IsUnseen x

theorem Ancestry.unseen_of_enters {role : StatementRole} (h : Enters IsUnseen type role) :
    (isParent type || isStatement type) = false := by
  obtain ⟨t, ht, ⟨rfl, -⟩ | hparent⟩ := h
  · exact ht
  · simp [IsUnseen, hparent] at ht

namespace Ancestry.IsPlainStatement

variable {n k : Nat} {t : Tree} {site : Site} {s u : GenState} (ht : IsPlainStatement t)
  (hs : s.ancestry.parents ≠ [])

include ht hs

theorem enclosing_eq {a : Ancestry}
    (ha : a.parents = (s.ancestry.push t.type.name (roleOf t)).parents) :
    a.enclosing = some ⟨s.ancestry.count, t.type.name, roleOf t⟩ := by
  have hparent : ¬ isParent t.type.name = true := by simp [ht.parent]
  rw [push_statement hparent ht.statement hs] at ha
  rw [enclosing, statements_eq ha (parents_recordAll_ne hs _ _), statements_recordAll hs]
  rfl

omit hs in
theorem owns (parents : List Parent) : ((unseen parents).law IsUnseen).Owns t := fun _ _ hw x hx =>
  ht.inside x (nodes_subset_nodesOfFields hw hx)

omit hs in
theorem parental (parents : List Parent) (h : isParent t.type.name = true) :
    ((unseen parents).law IsUnseen).Parental := by
  rw [ht.parent] at h
  cases h

theorem enclosing_walk (h : (walk n .plain (.tree t) site).run.run s = (.ok (), u)) :
    u.ancestry.enclosing = some ⟨s.ancestry.count, t.type.name, roleOf t⟩ := by
  obtain ⟨b, hb, hu⟩ := wp.ok ((unseen _).wp_walk (fun _ _ => unseen_of_enters) (ht.owns _)
    (ht.parental _) (.inl rfl) rfl) h
  have hpop : b.pop (layoutType t .plain) = b := if_neg (by simp [layoutType, ht.parent])
  rw [hu, hpop]
  exact ht.enclosing_eq hs hb

theorem enclosing_comes {b : Arrival} (hb : Arrival.Comes n ⟨.plain, .tree t, site, s⟩ k b)
    (hk : k < n) :
    b.state.ancestry.enclosing = some ⟨s.ancestry.count, t.type.name, roleOf t⟩ :=
  ht.enclosing_eq hs ((unseen _).comes (fun _ _ => unseen_of_enters) (ht.owns _) (ht.parental _)
    (.inl rfl) rfl hb hk)

end Ancestry.IsPlainStatement

variable {n k : Nat} {t : Tree} {manner : Manner} {site : Site} {s u : GenState}

/-- A node is compiled inside of a parent. The list of the parent then has in front what is seen of
the node. The type before the next statement is that of the first one in the list. If the node is a
statement, that is the node itself exactly if it is a parent or nothing inside of it is seen. In a
statement with neither parents nor statements inside, nothing is, and wherever the generator comes
to a node inside of it, it is the enclosing statement. -/
theorem walk_seen (hs : s.ancestry.parents ≠ [])
    (h : (walk n manner (.tree t) site).run.run s = (.ok (), u)) :
    ∃ inside : List Passage,
      u.ancestry.statements =
        (Passage.node (layoutType t manner) (roleOf t) inside).seen s.ancestry.count ++
          s.ancestry.statements ∧
      (∀ type role, (Ancestry.isParent type || Ancestry.isStatement type) = true →
        (u.ancestry.push type role).previousType type = u.ancestry.enclosing.map (·.type)) ∧
      ((Ancestry.isParent (layoutType t manner) || Ancestry.isStatement (layoutType t manner)) =
        true → (u.ancestry.enclosing = some ⟨s.ancestry.count, layoutType t manner, roleOf t⟩ ↔
          Ancestry.isParent (layoutType t manner) = true ∨
            Passage.seenInAll inside (s.ancestry.count + 1) = [])) ∧
      (manner = .plain → Ancestry.IsPlainStatement t →
        Passage.seenInAll inside (s.ancestry.count + 1) = [] ∧
        ∀ k b, Arrival.Comes n ⟨manner, .tree t, site, s⟩ k b → k < n →
          b.state.ancestry.enclosing = some ⟨s.ancestry.count, t.type.name, roleOf t⟩) := by
  have hall : (Ancestry.passes.law fun _ => True).Parental := Law.parental fun _ _ _ => trivial
  obtain ⟨_, ⟨inside, rfl⟩, hu⟩ := wp.ok (Ancestry.passes.wp_walk (fun _ _ _ => trivial)
    (fun _ _ _ _ _ => trivial) (fun _ => hall) (.inr hall) trivial) h
  change u.ancestry = s.ancestry.pass (.node _ _ inside) at hu
  rw [Ancestry.pass_eq _ hs] at hu
  have hstatements := congrArg Ancestry.statements hu
  rw [Ancestry.statements_recordAll hs] at hstatements
  have hparents : u.ancestry.parents ≠ [] := hu ▸ Ancestry.parents_recordAll_ne hs _ _
  refine ⟨inside, hstatements,
    fun type role htype => Ancestry.previousType_push htype hparents role, fun ht => ?_, ?_⟩
  · rw [Ancestry.enclosing, hstatements]
    exact Passage.head?_seen_iff ht (roleOf t) inside s.ancestry.count _
  · rintro rfl ht
    refine ⟨?_, fun k b hb hk => ?_⟩
    · have hlast := ht.enclosing_walk hs h
      rw [Ancestry.enclosing, hstatements] at hlast
      have hself := (Passage.head?_seen_iff (by simp [layoutType, ht.statement]) ..).1 hlast
      exact hself.resolve_left (by simp [layoutType, ht.parent])
    · exact ht.enclosing_comes hs hb hk

/-- The statement `map = {};`. -/
def assignedObject : Tree :=
  { type := .expressionStatement, span := {}, fields := [("expression",
    .assign (.name "map") (.node .objectExpression [("properties", .list [])]))] }

/-- The statement `map = other;`. -/
def assignedName : Tree :=
  { assignedObject with fields := [("expression", .assign (.name "map") (.name "other"))] }

theorem assignedObject_previousType :
    (((walk 3 .plain (.tree assignedObject) { frame := 0 }).run.run insideProgram).2.ancestry.push
      "ExpressionStatement" .other).previousType "ExpressionStatement" =
        some "ObjectExpression" := by
  decide +kernel

theorem assignedObject_seen : Ancestry.IsPlainStatement assignedName ∧ ∃ u inside,
    (walk 3 .plain (.tree assignedObject) { frame := 0 }).run.run insideProgram = (.ok (), u) ∧
    u.ancestry.statements =
      (Passage.node "ExpressionStatement" .assignment inside).seen 1 ∧
    Passage.seenInAll inside 2 ≠ [] := by
  refine ⟨⟨by decide, by decide, by decide +kernel⟩, ?_⟩
  have hsome : ((walk 3 .plain (.tree assignedObject) { frame := 0 }).run.run
      insideProgram).1.toOption.isSome = true := by decide +kernel
  have hlast : ((walk 3 .plain (.tree assignedObject) { frame := 0 }).run.run
      insideProgram).2.ancestry.enclosing.map (·.serial) = some 4 := by decide +kernel
  rcases hrun : (walk 3 .plain (.tree assignedObject) { frame := 0 }).run.run insideProgram
    with ⟨e | ⟨⟩, u⟩
  · rw [hrun] at hsome
    cases hsome
  · obtain ⟨inside, hseen, -, hself, -⟩ := walk_seen (by decide) hrun
    refine ⟨u, inside, rfl, hseen.trans (List.append_nil _), fun hnone => ?_⟩
    rw [hrun, (hself (by decide)).2 (.inr hnone)] at hlast
    cases hlast

end ObjectiveJ
