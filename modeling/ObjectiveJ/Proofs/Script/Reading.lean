import ObjectiveJ.Proofs.Script.Grammar

/-!
# Reading expressions

The grammar of expressions is unambiguous: tokens have one tree at most (`Derives.unique`). The
argument is a reader that looks one token ahead. A level reads an operand of the level below and
then goes on for as long as the next token belongs to the level (`Token.level`), so the tree that it
finds is a function of the tokens, and whatever the grammar derives it finds (`Derives.reads`). It
need not refuse what the grammar does not derive: the target of an assignment is any operand to it.

Readers take fuel. A result counts as read if it is found with all fuel from some amount on.
-/

namespace ObjectiveJ.Script

variable {f : Nat → Option α} {a : α}

/-- The level at which a token goes on after an operand, and 0 if there is none. -/
def Token.level : Token → Nat
  | .word name => (binaryOperators.lookup name).getD 0
  | .string _ => 0
  | .mark m =>
    if ["(", "[", "."].contains m then 1
    else if m = "?" then 13
    else if assignmentOperators.contains m then 14
    else if m = "," then 15
    else (binaryOperators.lookup m).getD 0

def Token.isUnary (t : Token) : Bool := (unaryOperators.map operatorToken).contains t

/-- The text of a word or a mark. -/
def Token.operator : Token → String
  | .word text => text
  | .string _ => ""
  | .mark text => text

mutual

/-- The expression of a level that tokens start with, and the tokens after it. -/
def read : Nat → Nat → List Token → Option (Expr × List Token)
  | 0, _, _ => none
  | n + 1, 0, ts =>
    match ts with
    | .word name :: rest => some (if name = "this" then .this else .ident name, rest)
    | .string text :: rest => (stringValue? text).map fun units => (.string units, rest)
    | .mark _ :: rest =>
      match read n 15 rest with
      | some (e, _ :: rest) => some (e, rest)
      | _ => none
    | [] => none
  | n + 1, k + 1, ts =>
    match ts with
    | [] => none
    | t :: rest =>
      if k = 1 ∧ t.isUnary then
        (read n 2 rest).map fun (e, rest) => (.unary t.operator e, rest)
      else match read n k ts with
        | some (e, rest) => proceed n (k + 1) e rest
        | none => none

/-- How an expression of a level goes on after its first operand. -/
def proceed : Nat → Nat → Expr → List Token → Option (Expr × List Token)
  | 0, _, _, _ => none
  | _ + 1, _, e, [] => some (e, [])
  | n + 1, k, e, t :: rest =>
    if k = 0 ∨ t.level ≠ k then some (e, t :: rest)
    else if k = 1 then
      if t = .mark "." then
        match rest with
        | name :: rest => proceed n 1 (.member e name.operator) rest
        | [] => none
      else if t = .mark "[" then
        match read n 15 rest with
        | some (p, _ :: rest) => proceed n 1 (.index e p) rest
        | _ => none
      else match readArguments n rest with
        | some (args, rest) => proceed n 1 (.call e args) rest
        | none => none
    else if k = 13 then
      match read n 14 rest with
      | some (yes, _ :: rest) => (read n 14 rest).map fun (no, rest) =>
          (.conditional e yes no, rest)
      | _ => none
    else if k = 14 then
      (read n 14 rest).map fun (value, rest) => (.assign t.operator e value, rest)
    else match read n (k - 1) rest with
      | some (e', rest) =>
        proceed n k (if k = 15 then .sequence e e' else .binary t.operator e e') rest
      | none => none

def readArguments : Nat → List Token → Option (List Expr × List Token)
  | 0, _ => none
  | n + 1, ts =>
    if ts.head? = some (.mark ")") then some ([], ts.tail)
    else match read n 14 ts with
      | some (e, t :: rest) =>
        if t = .mark ")" then some ([e], rest)
        else (readArguments n rest).map fun (es, rest) => (e :: es, rest)
      | _ => none

end

attribute [local simp] read proceed readArguments

/-! ### Results with enough fuel -/

/-- A reader with fuel finds a result from some amount of fuel on. -/
def Finds (f : Nat → Option α) (result : α) : Prop := ∃ N, ∀ n ≥ N, f n = some result

theorem Finds.unique {b : α} (ha : Finds f a) (hb : Finds f b) : a = b := by
  obtain ⟨M, hM⟩ := ha
  obtain ⟨N, hN⟩ := hb
  have h := hM (max M N) (Nat.le_max_left ..)
  rw [hN (max M N) (Nat.le_max_right ..)] at h
  exact (Option.some.inj h).symm

theorem Finds.const (h : ∀ n, f (n + 1) = some a) : Finds f a := by
  refine ⟨1, fun n hn => ?_⟩
  obtain ⟨m, rfl⟩ := Nat.exists_eq_add_of_le' hn
  exact h m

theorem Finds.step {g : Nat → Option β} {b : β} (hg : Finds g b)
    (h : ∀ n, g n = some b → f (n + 1) = some a) : Finds f a := by
  obtain ⟨N, hN⟩ := hg
  refine ⟨N + 1, fun n hn => ?_⟩
  obtain ⟨m, rfl⟩ := Nat.exists_eq_add_of_le' (Nat.le_trans (Nat.le_add_left 1 N) hn)
  exact h m (hN m (by omega))

theorem Finds.step₂ {g : Nat → Option β} {g' : Nat → Option γ} {b : β} {c : γ} (hg : Finds g b)
    (hg' : Finds g' c) (h : ∀ n, g n = some b → g' n = some c → f (n + 1) = some a) :
    Finds f a := by
  obtain ⟨M, hM⟩ := hg
  obtain ⟨N, hN⟩ := hg'
  have hboth : Finds (fun n => if M ≤ n ∧ N ≤ n then some () else none) () :=
    ⟨max M N, fun n hn => if_pos (by omega)⟩
  refine hboth.step fun n hn => ?_
  split at hn
  · rename_i hle
    exact h n (hM n hle.1) (hN n hle.2)
  · cases hn

abbrev Reads (k : Nat) (ts : List Token) (result : Expr × List Token) : Prop :=
  Finds (fun n => read n k ts) result

abbrev Proceeds (k : Nat) (e : Expr) (ts : List Token) (result : Expr × List Token) : Prop :=
  Finds (fun n => proceed n k e ts) result

abbrev ReadsArguments (ts : List Token) (result : List Expr × List Token) : Prop :=
  Finds (fun n => readArguments n ts) result

/-! ### What each construct reads -/

variable {k : Nat} {e e' : Expr} {t : Token} {ts us rest : List Token} {out : Expr × List Token}

/-- A level ends where the next token does not belong to it. -/
theorem proceeds_stop (h : k = 0 ∨ ∀ t ∈ ts.head?, t.level ≠ k) : Proceeds k e ts (e, ts) := by
  refine Finds.const fun n => ?_
  cases ts with
  | nil => rw [proceed]
  | cons t ts =>
    have hstop : k = 0 ∨ t.level ≠ k := h.imp id fun h => h t rfl
    simp only [proceed, if_pos hstop]

theorem reads_group (h : Reads 15 ts (e, t :: rest)) : Reads 0 (.mark "(" :: ts) (e, rest) :=
  h.step fun n hn => by simp only [read, hn]

/-- A level reads an operand of the level below and goes on. -/
theorem reads_succ (hts : ∃ t us, ts = t :: us ∧ (k = 1 → t.isUnary = false))
    (h : Reads k ts (e, rest)) (hp : Proceeds (k + 1) e rest out) : Reads (k + 1) ts out := by
  obtain ⟨t, us, rfl, hunary⟩ := hts
  refine h.step₂ hp fun n hn hn' => ?_
  have hno : ¬ (k = 1 ∧ t.isUnary = true) := by
    rintro ⟨hk, ht⟩
    rw [hunary hk] at ht
    cases ht
  simp only [read, if_neg hno, hn, hn']

theorem reads_unary (ht : t.isUnary = true) (h : Reads 2 ts (e, rest)) :
    Reads 2 (t :: ts) (.unary t.operator e, rest) :=
  h.step fun n hn => by simp [ht, hn]

theorem proceeds_member {name : String} (h : Proceeds 1 (.member e name) rest out) :
    Proceeds 1 e (.mark "." :: .word name :: rest) out := by
  have hlevel : (Token.mark ".").level = 1 := by decide
  refine h.step fun n hn => ?_
  simpa [hlevel, Token.operator] using hn

theorem proceeds_index (hp : Reads 15 ts (e', t :: rest)) (h : Proceeds 1 (.index e e') rest out) :
    Proceeds 1 e (.mark "[" :: ts) out := by
  have hlevel : (Token.mark "[").level = 1 := by decide
  refine hp.step₂ h fun n hn hn' => ?_
  simpa [hlevel, hn] using hn'

theorem proceeds_call {args : List Expr} (ha : ReadsArguments ts (args, rest))
    (h : Proceeds 1 (.call e args) rest out) : Proceeds 1 e (.mark "(" :: ts) out := by
  have hlevel : (Token.mark "(").level = 1 := by decide
  refine ha.step₂ h fun n hn hn' => ?_
  simpa [hlevel, hn] using hn'

theorem proceeds_conditional {no : Expr} (hy : Reads 14 ts (e', t :: us))
    (hn : Reads 14 us (no, rest)) :
    Proceeds 13 e (.mark "?" :: ts) (.conditional e e' no, rest) := by
  have hlevel : (Token.mark "?").level = 13 := by decide
  refine hy.step₂ hn fun n hn hn' => ?_
  simp [hlevel, hn, hn']

theorem proceeds_assign {op : String} (hop : (Token.mark op).level = 14)
    (hv : Reads 14 ts (e', rest)) : Proceeds 14 e (.mark op :: ts) (.assign op e e', rest) := by
  refine hv.step fun n hn => ?_
  simp [hop, hn, Token.operator]

/-- A left-associative level goes on with the tree of both operands as its first one. -/
theorem proceeds_binary (ht : t.level = k + 1) (hk : 2 ≤ k) (hk' : k ≤ 11)
    (hr : Reads k ts (e', rest)) (h : Proceeds (k + 1) (.binary t.operator e e') rest out) :
    Proceeds (k + 1) e (t :: ts) out := by
  refine hr.step₂ h fun n hn hn' => ?_
  have hne : k ≠ 0 ∧ k ≠ 12 ∧ k ≠ 13 ∧ k ≠ 14 := by omega
  simpa [ht, hn, hne] using hn'

theorem proceeds_sequence (hr : Reads 14 ts (e', rest))
    (h : Proceeds 15 (.sequence e e') rest out) : Proceeds 15 e (.mark "," :: ts) out := by
  have hlevel : (Token.mark ",").level = 15 := by decide
  refine hr.step₂ h fun n hn hn' => ?_
  simpa [hlevel, hn] using hn'

/-! ### What is derived is read -/

/-- No level up to a bound goes on with the next token. -/
def Clear (bound : Nat) (rest : List Token) : Prop :=
  ∀ t ∈ rest.head?, t.level = 0 ∨ bound < t.level

theorem Clear.mono {b c : Nat} (h : Clear b rest) (hcb : c ≤ b) : Clear c rest := by
  intro t ht
  have := h t ht
  omega

theorem Clear.proceeds {b : Nat} (h : Clear b rest) (hk : k ≤ b) : Proceeds k e rest (e, rest) := by
  rcases Nat.eq_zero_or_pos k with hzero | hpos
  · exact proceeds_stop (.inl hzero)
  · refine proceeds_stop (.inr fun t ht => ?_)
    have := h t ht
    omega

/-- What follows an expression of a level is to be clear of the levels below, and for those that
associate to the right, whose last operand is an assignment, of these too. -/
def reach (k : Nat) : Nat := if k = 13 ∨ k = 14 then 14 else k - 1

theorem binaryOperators_level : ∀ p ∈ binaryOperators, (operatorToken p.1).level = p.2 ∧
    (operatorToken p.1).operator = p.1 ∧ 3 ≤ p.2 ∧ p.2 ≤ 12 := by
  decide

theorem assignmentOperators_level : ∀ op ∈ assignmentOperators, (Token.mark op).level = 14 := by
  decide

theorem unaryOperators_operator : ∀ op ∈ unaryOperators,
    (operatorToken op).isUnary = true ∧ (operatorToken op).operator = op := by
  decide

theorem not_isUnary_of_isFirst (h : isFirst 1 t = true) : t.isUnary = false := by
  have hunary : ∀ u ∈ unaryOperators.map operatorToken, isFirst 1 u = false := by decide
  cases ht : t.isUnary with
  | false => rfl
  | true =>
    have hmem : t ∈ unaryOperators.map operatorToken := by simpa [Token.isUnary] using ht
    rw [hunary t hmem] at h
    cases h

/-- Unary operators stand before their operands: no token goes on at their level. -/
theorem Token.level_ne_two (t : Token) : t.level ≠ 2 := by
  have hlookup : ∀ name, (binaryOperators.lookup name).getD 0 ≠ 2 := by
    intro name
    cases h : binaryOperators.lookup name with
    | none => simp
    | some k =>
      obtain ⟨l₁, l₂, hsplit, -⟩ := List.lookup_eq_some_iff.1 h
      have hk := binaryOperators_level (name, k) (by simp [hsplit])
      simp only [Option.getD_some]
      omega
  cases t with
  | word name => exact hlookup name
  | string text => simp [level]
  | mark m =>
    have hmark := hlookup m
    grind [level]

theorem readsArguments_last (hts : ts.head? ≠ some (.mark ")"))
    (h : Reads 14 ts (e, .mark ")" :: rest)) : ReadsArguments ts ([e], rest) :=
  h.step fun n hn => by simp [hts, hn]

theorem readsArguments_cons {es : List Expr} (hts : ts.head? ≠ some (.mark ")"))
    (h : Reads 14 ts (e, .mark "," :: us)) (hus : ReadsArguments us (es, rest)) :
    ReadsArguments ts (e :: es, rest) :=
  h.step₂ hus fun n hn hn' => by simp [hts, hn, hn']

/-- Arguments are read one by one, given that each of them is. -/
theorem readsArguments_parts (parts : List (List Token × Expr))
    (hparts : ∀ p ∈ parts, Derives 14 p.1 p.2)
    (hreads : ∀ p ∈ parts, ∀ rest out, Clear 14 rest → Proceeds 14 p.2 rest out →
      Reads 14 (p.1 ++ rest) out) (rest : List Token) :
    ReadsArguments (commaSeparated (parts.map (·.1)) ++ .mark ")" :: rest)
      (parts.map (·.2), rest) := by
  have hread : ∀ p ∈ parts, ∀ t us, t.level = 0 ∨ 14 < t.level →
      Reads 14 (p.1 ++ t :: us) (p.2, t :: us) := by
    intro p hp t us ht
    have hclear : Clear 14 (t :: us) := by
      rintro t' ⟨⟩
      exact ht
    exact hreads p hp _ _ hclear (hclear.proceeds (Nat.le_refl _))
  have hnotClose : ∀ p ∈ parts, ∀ us, (p.1 ++ us).head? ≠ some (.mark ")") := by
    intro p hp us
    obtain ⟨t, ts, hts, ht⟩ := (hparts p hp).exists_first
    rw [hts]
    rintro ⟨⟩
    revert ht
    decide
  induction parts with
  | nil => exact Finds.const fun n => by simp [commaSeparated]
  | cons p parts ih =>
    cases parts with
    | nil =>
      have hp := hread p (by simp) (.mark ")") rest (by decide)
      exact readsArguments_last (hnotClose p (by simp) _) hp
    | cons q parts =>
      have hp := hread p (by simp) (.mark ",")
        (commaSeparated ((q :: parts).map (·.1)) ++ .mark ")" :: rest) (by decide)
      have hrest := ih (fun p hp => hparts p (by simp [hp]))
        (fun p hp => hreads p (by simp [hp])) (fun p hp => hread p (by simp [hp]))
        (fun p hp => hnotClose p (by simp [hp]))
      have hcons := readsArguments_cons (hnotClose p (by simp) _) hp hrest
      simpa [commaSeparated] using hcons

theorem clear_of_level (ht : t.level = 0 ∨ 15 < t.level) : Clear 15 (t :: rest) := by
  rintro t' ⟨⟩
  exact ht

/-- An operand of level 1 is one of each level above that does not go on with what follows. -/
theorem reads_lift {b : Nat} (hts : ∃ t us, ts = t :: us ∧ t.isUnary = false) (hrest : Clear b rest)
    (h : Reads 1 ts (e, rest)) (hk : 1 ≤ k) (hkb : k ≤ b) : Reads k ts (e, rest) := by
  obtain ⟨t, us, hcons, ht⟩ := hts
  induction k with
  | zero => omega
  | succ k ih =>
    rcases Nat.eq_zero_or_pos k with rfl | hpos
    · exact h
    · exact reads_succ ⟨t, us, hcons, fun _ => ht⟩ (ih hpos (by omega)) (hrest.proceeds hkb)

/-- The reader finds the tree of a derivation, and then goes on at its level. -/
theorem Derives.reads (h : Derives k ts e) : ∀ rest out, Clear (reach k) rest →
    Proceeds k e rest out → Reads k (ts ++ rest) out := by
  induction h with
  | @ident name h =>
    intro rest out _ hp
    obtain rfl := (proceeds_stop (.inl rfl)).unique hp
    have hthis : name ≠ "this" := by
      rintro rfl
      exact h (by decide)
    exact Finds.const fun n => by simp [hthis]
  | this =>
    intro rest out _ hp
    obtain rfl := (proceeds_stop (.inl rfl)).unique hp
    exact Finds.const fun n => by simp [read]
  | string h =>
    intro rest out _ hp
    obtain rfl := (proceeds_stop (.inl rfl)).unique hp
    exact Finds.const fun n => by simp [h]
  | group _ ih =>
    intro rest out _ hp
    obtain rfl := (proceeds_stop (.inl rfl)).unique hp
    have hclose : Clear 15 (.mark ")" :: rest) := clear_of_level (by decide)
    have hread := ih _ _ (hclose.mono (by decide)) (hclose.proceeds (Nat.le_refl _))
    simpa using reads_group hread
  | member name _ ih =>
    intro rest out _ hp
    simpa using ih _ _ (fun t _ => by simp [reach]; omega) (proceeds_member hp)
  | index _ _ ih ihp =>
    intro rest out _ hp
    have hclose : Clear 15 (.mark "]" :: rest) := clear_of_level (by decide)
    have hread := ihp _ _ (hclose.mono (by decide)) (hclose.proceeds (Nat.le_refl _))
    simpa using ih _ _ (fun t _ => by simp [reach]; omega) (proceeds_index hread hp)
  | call parts _ hparts ih ihparts =>
    intro rest out _ hp
    have hargs := readsArguments_parts parts hparts ihparts rest
    simpa using ih _ _ (fun t _ => by simp [reach]; omega) (proceeds_call hargs hp)
  | unary hop h ih =>
    intro rest out hrest hp
    obtain ⟨hunary, hoperator⟩ := unaryOperators_operator _ hop
    have hstop : ∀ e, Proceeds 2 e rest (e, rest) := fun e =>
      proceeds_stop (.inr fun t _ => t.level_ne_two)
    obtain rfl := (hstop _).unique hp
    have hread := reads_unary hunary (ih _ _ hrest (hstop _))
    rwa [hoperator] at hread
  | @binary op k ts us left right hop _ _ ihl ihr =>
    intro rest out hrest hp
    obtain ⟨hlevel, hoperator, hlow, hhigh⟩ := binaryOperators_level _ hop
    dsimp only at hlevel hoperator hlow hhigh
    have hreach : reach (k + 1) = k ∧ reach k ≤ k := by
      unfold reach
      grind
    rw [hreach.1] at hrest
    have hright := ihr _ _ (hrest.mono hreach.2) (hrest.proceeds (Nat.le_refl _))
    have hclear : Clear (reach (k + 1)) (operatorToken op :: (us ++ rest)) := by
      rintro t ⟨⟩
      omega
    rw [← hoperator] at hp
    have hleft := ihl _ _ hclear
      (proceeds_binary hlevel (by omega) (by omega) hright (by simpa using hp))
    simpa using hleft
  | @conditional ts us vs test yes no ht _ _ iht ihy ihn =>
    intro rest out hrest hp
    obtain rfl := (hrest.proceeds (by decide)).unique hp
    have hquestion : Clear 12 (.mark "?" :: (us ++ .mark ":" :: (vs ++ rest))) := by
      rintro t ⟨⟩
      exact .inr (by decide)
    have hcolon : Clear 15 (.mark ":" :: (vs ++ rest)) := clear_of_level (by decide)
    have htest := iht _ _ (hquestion.mono (by decide)) (hquestion.proceeds (Nat.le_refl _))
    have hyes := ihy _ _ (hcolon.mono (by decide)) (hcolon.proceeds (by decide))
    have hno := ihn _ _ hrest (hrest.proceeds (by decide))
    obtain ⟨t, ts, rfl, -⟩ := ht.exists_first
    have hread := reads_succ ⟨t, _, rfl, fun h => absurd h (by decide)⟩ htest
      (proceeds_conditional hyes hno)
    simpa using hread
  | @assign op ts us target value hop ht _ iht ihv =>
    intro rest out hrest hp
    obtain rfl := (hrest.proceeds (by decide)).unique hp
    have hlevel := assignmentOperators_level _ hop
    have hclear : Clear 13 (.mark op :: (us ++ rest)) := by
      rintro t ⟨⟩
      omega
    obtain ⟨t, ts, rfl, hfirst⟩ := ht.exists_first
    have htarget := iht _ _ (hclear.mono (by decide)) (hclear.proceeds (by decide))
    have hlift := reads_lift ⟨t, _, rfl, not_isUnary_of_isFirst hfirst⟩ hclear htarget
      (by decide) (Nat.le_refl _)
    have hvalue := ihv _ _ hrest (hrest.proceeds (Nat.le_refl _))
    have hread := reads_succ ⟨t, _, rfl, fun h => absurd h (by decide)⟩ hlift
      (proceeds_assign hlevel hvalue)
    simpa using hread
  | @sequence ts us first second _ _ ih ih' =>
    intro rest out hrest hp
    have hcomma : Clear 14 (.mark "," :: (us ++ rest)) := by
      rintro t ⟨⟩
      exact .inr (by decide)
    have hsecond := ih' _ _ hrest (hrest.proceeds (by decide))
    simpa using ih _ _ hcomma (proceeds_sequence hsecond hp)
  | @weaken k ts e hk h ih =>
    intro rest out hrest hp
    have hreach : reach k ≤ reach (k + 1) ∧ k ≤ reach (k + 1) := by
      unfold reach
      grind
    have hread := ih _ _ (hrest.mono hreach.1) (hrest.proceeds hreach.2)
    obtain ⟨t, ts, rfl, hfirst⟩ := h.exists_first
    refine reads_succ ⟨t, _, rfl, ?_⟩ hread hp
    rintro rfl
    exact not_isUnary_of_isFirst hfirst

/-- Tokens have one tree at most. -/
theorem Derives.unique (h : Derives k ts e) (h' : Derives k ts e') : e = e' := by
  have hend : ∀ e, Proceeds k e [] (e, []) := fun e => proceeds_stop (.inr (by simp))
  have hread := h.reads [] _ (by simp [Clear]) (hend e)
  have hread' := h'.reads [] _ (by simp [Clear]) (hend e')
  exact congrArg Prod.fst (hread.unique hread')

end ObjectiveJ.Script
