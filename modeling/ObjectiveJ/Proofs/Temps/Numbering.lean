import ObjectiveJ.Proofs.Temps.Visits

/-!
# Numbers of nested temps

If each node that assigns a temp assigns the one after those in use around it, then the temps in use
are an interval, and it ends at the nesting depth.
-/

namespace ObjectiveJ.Visits

variable {s : String}

variable {wrapped : Bool} {level : Nat} {vs ws : Visits} (inFunction : Bool) (count : Nat)

/-! ### One after another -/

@[simp] theorem assigned_append : (vs ++ ws).assigned = vs.assigned ++ ws.assigned := by
  induction vs with
  | nil => rfl
  | piece p rest ih => cases p <;> simp [assigned, ih]
  | node type inner rest _ ih => simp [assigned, ih]

@[simp] theorem hasSplice_append : (vs ++ ws).hasSplice = (vs.hasSplice || ws.hasSplice) := by
  induction vs with
  | nil => rfl
  | piece p rest ih => simp [hasSplice, ih, Bool.or_assoc]
  | node type inner rest _ ih => simp [hasSplice, ih]

@[simp] theorem firstType?_append : (vs ++ ws).firstType? = vs.firstType?.or ws.firstType? := by
  induction vs with
  | nil => rfl
  | piece p rest ih => simp [firstType?, ih]
  | node type inner rest _ ih => simp [firstType?]

@[simp] theorem nodes_append :
    (vs ++ ws).nodes wrapped = vs.nodes wrapped ++ ws.nodes wrapped := by
  induction vs with
  | nil => rfl
  | piece p rest ih => simp [nodes, ih]
  | node type inner rest _ ih => simp [nodes, ih]

@[simp] theorem pieces_append :
    (vs ++ ws).pieces wrapped = vs.pieces wrapped ++ ws.pieces wrapped := by
  induction vs with
  | nil => rfl
  | piece p rest ih => simp [pieces, ih]
  | node type inner rest _ ih => simp [pieces, ih]

@[simp] theorem depth_append :
    (vs ++ ws).depth wrapped = max (vs.depth wrapped) (ws.depth wrapped) := by
  induction vs with
  | nil => simp [depth]
  | piece p rest ih => simp [depth, ih]
  | node type inner rest _ ih => simp only [node_append, depth, ih, Nat.max_assoc]

@[simp] theorem scopesIn_append :
    (vs ++ ws).scopesIn wrapped inFunction =
      vs.scopesIn wrapped inFunction ++ ws.scopesIn wrapped inFunction := by
  induction vs with
  | nil => rfl
  | piece p rest ih => simp [scopesIn, ih]
  | node type inner rest _ ih => simp [scopesIn, ih]

/-! ### Numbered visits -/

/-- Each node that assigns a temp assigns the one after those in use, and the temps are not declared
yet. -/
def Numbered (wrapped : Bool) (level : Nat) : Visits → Prop
  | nil => True
  | piece p rest => p ≠ .template tempsHeader ∧ rest.Numbered wrapped level
  | node type inner rest =>
    (isScope wrapped type = false → Takes type inner ∧
      (ownTemps type inner = [] ∧ inner.Numbered wrapped level ∨
        ownTemps type inner = [level + 1] ∧ inner.Numbered wrapped (level + 1))) ∧
      rest.Numbered wrapped level

@[simp] theorem numbered_append :
    (vs ++ ws).Numbered wrapped level ↔ vs.Numbered wrapped level ∧ ws.Numbered wrapped level := by
  induction vs with
  | nil => simp [Numbered]
  | piece p rest ih => simp only [piece_append, Numbered, ih, and_assoc]
  | node type inner rest _ ih => simp only [node_append, Numbered, ih, and_assoc]

theorem Numbered.mem_temps (h : vs.Numbered wrapped level) (k : Nat) :
    k ∈ vs.temps wrapped ↔ level + 1 ≤ k ∧ k ≤ level + vs.depth wrapped := by
  unfold temps
  induction vs generalizing level with
  | nil =>
    refine ⟨fun hk => by simp [nodes] at hk, fun hk => ?_⟩
    rw [depth] at hk
    omega
  | piece p rest ih => exact ih h.2
  | node type inner rest ihInner ihRest =>
    rw [nodes, List.flatMap_append, List.mem_append, ihRest h.2, depth]
    cases hscope : isScope wrapped type with
    | true => simp
    | false =>
      rcases (h.1 hscope).2 with ⟨hown, hinner⟩ | ⟨hown, hinner⟩
      all_goals
        simp only [Bool.false_eq_true, if_false, List.flatMap_cons, List.mem_append, hown,
          ihInner hinner]
        simp
        omega

/-- A node in the scope takes no temp, or one more than those in use around it. -/
theorem Numbered.of_mem (h : vs.Numbered wrapped level) {n : String × Visits}
    (hn : n ∈ vs.nodes wrapped) : Takes n.1 n.2 ∧ (ownTemps n.1 n.2 = [] ∨
      ∃ level, ownTemps n.1 n.2 = [level + 1] ∧ n.2.Numbered wrapped (level + 1)) := by
  induction vs generalizing level with
  | nil => simp [nodes] at hn
  | piece p rest ih => exact ih h.2 hn
  | node type inner rest ihInner ihRest =>
    rcases List.mem_append.1 hn with hn | hn
    · cases hscope : isScope wrapped type with
      | true => simp [hscope] at hn
      | false =>
        obtain ⟨htakes, hinner⟩ := h.1 hscope
        rw [hscope, if_neg Bool.false_ne_true, List.mem_cons] at hn
        rcases hn with rfl | hn
        · exact ⟨htakes, hinner.imp And.left fun hinner => ⟨level, hinner⟩⟩
        · exact hinner.elim (ihInner ·.2 hn) (ihInner ·.2 hn)
    · exact ihRest h.2 hn

theorem Numbered.nested (h : vs.Numbered wrapped level) :
    ∀ n ∈ vs.nodes wrapped, ∀ outer ∈ ownTemps n.1 n.2, ∀ inner ∈ n.2.temps wrapped,
      outer < inner := by
  intro n hn outer houter l hl
  rcases (h.of_mem hn).2 with hown | ⟨level, hown, hinner⟩
  · simp [hown] at houter
  · rw [hown, List.mem_singleton] at houter
    rw [hinner.mem_temps] at hl
    omega

theorem Numbered.notMem_pieces (h : vs.Numbered wrapped level) :
    .template tempsHeader ∉ vs.pieces wrapped := by
  induction vs generalizing level with
  | nil => simp [pieces]
  | piece p rest ih =>
    rw [pieces, List.mem_cons, not_or]
    exact ⟨fun heq => h.1 heq.symm, ih h.2⟩
  | node type inner rest ihInner ihRest =>
    rw [pieces, List.mem_append, not_or]
    refine ⟨?_, ihRest h.2⟩
    cases hscope : isScope wrapped type with
    | true => simp
    | false =>
      rw [if_neg Bool.false_ne_true]
      rcases (h.1 hscope).2 with ⟨_, hinner⟩ | ⟨_, hinner⟩ <;> exact ihInner hinner

/-! ### Visits without nodes -/

/-- There is no node among the visits. -/
def isFlat : Visits → Bool
  | nil => true
  | piece _ rest => rest.isFlat
  | node .. => false

theorem eq_of_isFlat {α : Type} {f : Visits → α} (hf : ∀ p rest, f (piece p rest) = f rest)
    (h : vs.isFlat = true) : f vs = f nil := by
  induction vs with
  | nil => rfl
  | piece p rest ih => exact (hf p rest).trans (ih h)
  | node => cases h

theorem firstType?_of_isFlat (h : vs.isFlat = true) : vs.firstType? = none :=
  eq_of_isFlat (f := (·.firstType?)) (fun _ _ => rfl) h

theorem nodes_of_isFlat (h : vs.isFlat = true) : vs.nodes wrapped = [] :=
  eq_of_isFlat (f := (·.nodes wrapped)) (fun _ _ => rfl) h

theorem depth_of_isFlat (h : vs.isFlat = true) : vs.depth wrapped = 0 :=
  eq_of_isFlat (f := (·.depth wrapped)) (fun _ _ => rfl) h

theorem scopesIn_of_isFlat (h : vs.isFlat = true) : vs.scopesIn wrapped inFunction = [] :=
  eq_of_isFlat (f := (·.scopesIn wrapped inFunction)) (fun _ _ => rfl) h

/-! ### Whole scopes -/

@[simp] theorem nodes_declaration : (declaration count).nodes wrapped = [] := by
  unfold declaration
  split <;> rfl

@[simp] theorem depth_declaration : (declaration count).depth wrapped = 0 := by
  unfold declaration
  split <;> rfl

@[simp] theorem scopesIn_declaration :
    (declaration count).scopesIn wrapped inFunction = [] := by
  unfold declaration
  split <;> rfl

theorem count_pieces_declaration :
    ((declaration count).pieces wrapped).count (.template tempsHeader) =
      if count = 0 then 0 else 1 := by
  unfold declaration
  split <;> simp [pieces]

theorem isFlat_of_isClosing (h : vs.isClosing = true) : vs.isFlat = true := by
  induction vs with
  | nil => rfl
  | piece p rest ih => exact ih (by simp_all [isClosing])
  | node => cases h

theorem notMem_pieces_of_isClosing (h : vs.isClosing = true) :
    .template tempsHeader ∉ vs.pieces wrapped := by
  induction vs with
  | nil => simp [pieces]
  | piece p rest ih =>
    rw [isClosing, Bool.and_eq_true, decide_eq_true_iff] at h
    rw [pieces, List.mem_cons, not_or]
    refine ⟨?_, ih h.2⟩
    rintro rfl
    simp at h
  | node => cases h

/-- Numbered code with the declaration of its temps and closing brackets after it. -/
theorem Exact.of_numbered {code close : Visits} (h : code.Numbered wrapped 0)
    (hclose : close.isClosing = true) :
    Exact wrapped (code ++ declaration (code.depth wrapped) ++ close) := by
  have hdepth : (code ++ declaration (code.depth wrapped) ++ close).depth wrapped =
      code.depth wrapped := by
    simp [depth_of_isFlat (isFlat_of_isClosing hclose)]
  have hnodes : (code ++ declaration (code.depth wrapped) ++ close).nodes wrapped =
      code.nodes wrapped := by
    simp [nodes_of_isFlat (isFlat_of_isClosing hclose)]
  constructor
  · intro k
    have hmem := h.mem_temps k
    rw [Nat.zero_add, Nat.zero_add] at hmem
    rw [hdepth, temps, hnodes]
    exact hmem
  · rw [hnodes]
    exact h.nested
  · rw [hnodes]
    exact fun _ hn => (h.of_mem hn).1
  · exact ⟨code, close, by rw [hdepth], hclose⟩
  · rw [hdepth, pieces_append, pieces_append, List.count_append, List.count_append,
      count_pieces_declaration, List.count_eq_zero.2 h.notMem_pieces,
      List.count_eq_zero.2 (notMem_pieces_of_isClosing hclose), Nat.zero_add, Nat.add_zero]

/-! ### Texts that assign -/

theorem filter_isDigit_tempName (k : Nat) :
    (Gen.tempName k).toList.filter Char.isDigit = Nat.toDigits 10 k := by
  have hdigits : (Nat.toDigits 10 k).filter Char.isDigit = Nat.toDigits 10 k :=
    List.filter_eq_self.2 fun c hc => Nat.isDigit_of_mem_toDigits (by decide) (by decide) hc
  have hrepr : (k : Int).repr.toList = Nat.toDigits 10 k := Nat.toList_repr
  simp [Gen.tempName, String.toList_append, hrepr, hdigits]

theorem assignedTemp?_eq_some {start : String} (k : Nat) (hs : s = start ++ Gen.tempName k ++ " = ")
    (hstart : start = "((" ∨ start = "(") : assignedTemp? s = some k := by
  have hdigits : s.toList.filter Char.isDigit = Nat.toDigits 10 k := by
    rcases hstart with rfl | rfl
    all_goals
      rw [hs, String.toList_append, String.toList_append, List.filter_append, List.filter_append,
        filter_isDigit_tempName]
      simp
  rw [assignedTemp?, hdigits, Nat.ofDigitChars_toDigits (by decide) (by decide), if_pos]
  rcases hstart with rfl | rfl
  · exact .inl hs
  · exact .inr hs

/-- What no text that assigns a temp starts with. -/
def isOtherStart : List Char → Bool
  | [] => true
  | [c] => c ≠ '('
  | c :: d :: _ => c ≠ '(' ∨ d ≠ '(' ∧ d ≠ '_'

theorem assignedTemp?_of_start (h : isOtherStart s.toList = true) : assignedTemp? s = none := by
  unfold assignedTemp?
  rw [if_neg]
  rintro (hs | hs)
  all_goals
    rw [hs] at h
    simp [Gen.tempName, String.toList_append, isOtherStart] at h

theorem assignedTemp?_of_last (h : s.toList.getLast? ≠ some ' ') : assignedTemp? s = none := by
  unfold assignedTemp?
  rw [if_neg]
  rintro (hs | hs)
  all_goals
    rw [hs, String.toList_append, List.getLast?_append] at h
    simp at h

end ObjectiveJ.Visits
