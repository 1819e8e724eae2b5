import ObjectiveJ.Proofs.Script.Spelling
import ObjectiveJ.Proofs.Tree
import ObjectiveJ.Syntax.Precedence

/-!
# Nodes of expressions

`Denotes A v e` says that a value is a node of a program that stands for the expression `e`: a name,
`this`, a string, or an operator, a call or a member with its parts. The fields of the node hold
what a parser puts there.

Parentheses are no nodes. `Precedence.needsParens?` says of a part of an expression whether it is
written in parentheses, and `Denotes.level_le` is what makes this right: a part that is written
without them is of the level that the grammar asks for in its place.
-/

namespace ObjectiveJ

open Script

/-- A location with a text and two numbers. -/
def Location.IsPlain (l : Location) : Prop :=
  ∃ file line column, l = ⟨.str file, .int line, .int column⟩

/-- A node without a location, or with a plain one. -/
def Tree.IsPlaced (t : Tree) : Prop := ∀ l, t.location = some l → l.IsPlain

theorem Tree.IsPlaced.numbered {t : Tree} (h : t.IsPlaced) (n : Nat) :
    (t.numbered.run n).1.IsPlaced := by
  rwa [IsPlaced, Tree.numbered_location]

namespace Script.Expr

/-- What can be assigned to: a variable or a member. -/
def isTarget : Expr → Bool
  | ident _ => true
  | member .. => true
  | index .. => true
  | _ => false

def isConditional : Expr → Bool
  | conditional .. => true
  | _ => false

/-- The level of the grammar at which the text of an expression is derived. -/
def level : Expr → Nat
  | ident _ => 0
  | this => 0
  | string _ => 0
  | member .. => 1
  | index .. => 1
  | call .. => 1
  | unary .. => 2
  | binary op .. => (binaryOperators.lookup op).getD 0
  | conditional .. => 13
  | assign .. => 14
  | sequence .. => 15

theorem level_le_of_isTarget {e : Expr} (h : e.isTarget = true) : e.level ≤ 1 := by
  cases e <;> simp_all [isTarget, level]

end Script.Expr

/-- The type of the node of a binary operator. -/
def binaryType (op : String) : NodeType :=
  if op = "&&" ∨ op = "||" then .logicalExpression else .binaryExpression

theorem binaryType_cases (op : String) :
    binaryType op = .binaryExpression ∨ binaryType op = .logicalExpression := by
  unfold binaryType
  split
  · exact .inr rfl
  · exact .inl rfl

/-- A text without the sign that marks a string of Objective-J. -/
def IsRaw (raw text : String) : Prop := raw = text ∨ raw = "@" ++ text

/-- A node stands for an expression. Parentheses are no part of a program's tree. -/
inductive Denotes (A : Alphabet) : Value → Expr → Prop
  | ident {t : Tree} {name : String} (hplaced : t.IsPlaced) (htype : t.type = .identifier)
      (hname : t.get? "name" = some (.str name)) (hvalid : A.isName name = true)
      (hfree : name ∉ reservedWords) : Denotes A (.tree t) (.ident name)
  | this {t : Tree} (hplaced : t.IsPlaced) (htype : t.type = .thisExpression) :
      Denotes A (.tree t) .this
  /-- A string, with its spelling in the program or without. -/
  | string {t : Tree} {s : String} {raw : Value} (hplaced : t.IsPlaced) (htype : t.type = .literal)
      (hvalue : t.get? "value" = some (.str s)) (hraw : t.get? "raw" = some raw)
      (hspelled : raw.truthy = false ∨ ∃ r text, raw = .str r ∧ IsRaw r text ∧
        stringValue? text = some (s.toList.flatMap utf16)) :
      Denotes A (.tree t) (.string (s.toList.flatMap utf16))
  | unary {t : Tree} {op : String} {argument : Value} {e : Expr} (hplaced : t.IsPlaced)
      (htype : t.type = .unaryExpression)
      (hop : op ∈ ["!", "~", "typeof", "void", "delete"])
      (hopField : t.get? "operator" = some (.str op))
      (hargument : t.get? "argument" = some argument)
      (h : Denotes A argument e) : Denotes A (.tree t) (.unary op e)
  | binary {t : Tree} {op : String} {left right : Value} {l r : Expr}
      (hop : op ∈ Precedence.operators.map (·.1)) (htype : t.type = binaryType op)
      (hopField : t.get? "operator" = some (.str op)) (hleft : t.get? "left" = some left)
      (hright : t.get? "right" = some right) (hl : Denotes A left l) (hr : Denotes A right r) :
      Denotes A (.tree t) (.binary op l r)
  | call {t : Tree} {callee : Value} {f : Expr} (parts : List (Value × Expr))
      (htype : t.type = .callExpression) (hcallee : t.get? "callee" = some callee)
      (harguments : t.get? "arguments" = some (.list (parts.map (·.1)))) (hf : Denotes A callee f)
      (hparts : ∀ p ∈ parts, Denotes A p.1 p.2) : Denotes A (.tree t) (.call f (parts.map (·.2)))
  | member {t p : Tree} {object computed : Value} {o : Expr} {name : String}
      (htype : t.type = .memberExpression) (hobject : t.get? "object" = some object)
      (hcomputed : t.get? "computed" = some computed) (hplain : computed.truthy = false)
      (hproperty : t.get? "property" = some (.tree p)) (hplaced : p.IsPlaced)
      (hptype : p.type = .identifier) (hname : p.get? "name" = some (.str name))
      (hvalid : A.isName name = true) (ho : Denotes A object o) :
      Denotes A (.tree t) (.member o name)
  | index {t : Tree} {object property computed : Value} {o p : Expr}
      (htype : t.type = .memberExpression) (hobject : t.get? "object" = some object)
      (hcomputed : t.get? "computed" = some computed) (hindex : computed.truthy = true)
      (hproperty : t.get? "property" = some property) (ho : Denotes A object o)
      (hp : Denotes A property p) : Denotes A (.tree t) (.index o p)
  | assign {t : Tree} {op : String} {left right : Value} {l r : Expr}
      (htype : t.type = .assignmentExpression) (hop : op ∈ assignmentOperators)
      (hopField : t.get? "operator" = some (.str op)) (hleft : t.get? "left" = some left)
      (hright : t.get? "right" = some right) (htarget : l.isTarget = true) (hl : Denotes A left l)
      (hr : Denotes A right r) : Denotes A (.tree t) (.assign op l r)
  | conditional {t : Tree} {test consequent alternate : Value} {c y n : Expr}
      (htype : t.type = .conditionalExpression) (htest : t.get? "test" = some test)
      (hconsequent : t.get? "consequent" = some consequent)
      (halternate : t.get? "alternate" = some alternate) (hsimple : c.isConditional = false)
      (hc : Denotes A test c) (hy : Denotes A consequent y) (hn : Denotes A alternate n) :
      Denotes A (.tree t) (.conditional c y n)

namespace Denotes

variable {A : Alphabet} {v : Value} {e : Expr}

theorem numbered_parts (parts : List (Value × Expr))
    (h : ∀ p ∈ parts, ∀ n, Denotes A (p.1.numbered.run n).1 p.2) (n : Nat) :
    ∃ parts' : List (Value × Expr), ((numberedItems (parts.map (·.1))).run n).1 = parts'.map (·.1) ∧
      parts'.map (·.2) = parts.map (·.2) ∧ ∀ p ∈ parts', Denotes A p.1 p.2 := by
  induction parts generalizing n with
  | nil => exact ⟨[], by simp, rfl, by simp⟩
  | cons p parts ih =>
    obtain ⟨parts', hfst, hsnd, hparts'⟩ :=
      ih (fun q hq => h q (by simp [hq])) (p.1.numbered.run n).2
    refine ⟨((p.1.numbered.run n).1, p.2) :: parts', ?_, by simp [hsnd], ?_⟩
    · rw [List.map_cons, numberedItems_cons, hfst, List.map_cons]
    · exact List.forall_mem_cons.2 ⟨h p (by simp) n, hparts'⟩

theorem numbered (h : Denotes A v e) (n : Nat) : Denotes A (v.numbered.run n).1 e := by
  induction h generalizing n with
  | ident hplaced htype hname hvalid hfree =>
    rw [Value.numbered_tree]
    obtain ⟨m, hm⟩ := Tree.get?_numbered hname n
    exact .ident (hplaced.numbered n) (by simpa using htype) (by simpa using hm) hvalid hfree
  | this hplaced htype =>
    rw [Value.numbered_tree]
    exact .this (hplaced.numbered n) (by simpa using htype)
  | string hplaced htype hvalue hraw hspelled =>
    rw [Value.numbered_tree]
    obtain ⟨m, hm⟩ := Tree.get?_numbered hvalue n
    obtain ⟨k, hk⟩ := Tree.get?_numbered hraw n
    refine .string (hplaced.numbered n) (by simpa using htype) (by simpa using hm) hk ?_
    rcases hspelled with hempty | ⟨r, text, rfl, hr, htext⟩
    · exact .inl (by simpa using hempty)
    · exact .inr ⟨r, text, Value.numbered_data .., hr, htext⟩
  | unary hplaced htype hop hopField hargument _ ih =>
    rw [Value.numbered_tree]
    obtain ⟨m, hm⟩ := Tree.get?_numbered hopField n
    obtain ⟨k, hk⟩ := Tree.get?_numbered hargument n
    exact .unary (hplaced.numbered n) (by simpa using htype) hop (by simpa using hm) hk (ih k)
  | binary hop htype hopField hleft hright _ _ ihl ihr =>
    rw [Value.numbered_tree]
    obtain ⟨m, hm⟩ := Tree.get?_numbered hopField n
    obtain ⟨j, hj⟩ := Tree.get?_numbered hleft n
    obtain ⟨k, hk⟩ := Tree.get?_numbered hright n
    exact .binary hop (by simpa using htype) (by simpa using hm) hj hk (ihl j) (ihr k)
  | call parts htype hcallee harguments _ _ ihf ihparts =>
    rw [Value.numbered_tree]
    obtain ⟨j, hj⟩ := Tree.get?_numbered hcallee n
    obtain ⟨k, hk⟩ := Tree.get?_numbered harguments n
    rw [Value.numbered_list] at hk
    obtain ⟨parts', hfst, hsnd, hparts'⟩ := numbered_parts parts ihparts k
    rw [← hsnd]
    exact .call parts' (by simpa using htype) hj (by rw [hk, hfst]) (ihf j) hparts'
  | member htype hobject hcomputed hplain hproperty hplaced hptype hname hvalid _ ih =>
    rw [Value.numbered_tree]
    obtain ⟨i, hi⟩ := Tree.get?_numbered hobject n
    obtain ⟨j, hj⟩ := Tree.get?_numbered hcomputed n
    obtain ⟨k, hk⟩ := Tree.get?_numbered hproperty n
    rw [Value.numbered_tree] at hk
    obtain ⟨m, hm⟩ := Tree.get?_numbered hname k
    exact .member (by simpa using htype) hi hj (by simpa using hplain) hk (hplaced.numbered k)
      (by simpa using hptype) (by simpa using hm) hvalid (ih i)
  | index htype hobject hcomputed hindex hproperty _ _ iho ihp =>
    rw [Value.numbered_tree]
    obtain ⟨i, hi⟩ := Tree.get?_numbered hobject n
    obtain ⟨j, hj⟩ := Tree.get?_numbered hcomputed n
    obtain ⟨k, hk⟩ := Tree.get?_numbered hproperty n
    exact .index (by simpa using htype) hi hj (by simpa using hindex) hk (iho i) (ihp k)
  | assign htype hop hopField hleft hright htarget _ _ ihl ihr =>
    rw [Value.numbered_tree]
    obtain ⟨m, hm⟩ := Tree.get?_numbered hopField n
    obtain ⟨j, hj⟩ := Tree.get?_numbered hleft n
    obtain ⟨k, hk⟩ := Tree.get?_numbered hright n
    exact .assign (by simpa using htype) hop (by simpa using hm) hj hk htarget (ihl j) (ihr k)
  | conditional htype htest hconsequent halternate hsimple _ _ _ ihc ihy ihn =>
    rw [Value.numbered_tree]
    obtain ⟨i, hi⟩ := Tree.get?_numbered htest n
    obtain ⟨j, hj⟩ := Tree.get?_numbered hconsequent n
    obtain ⟨k, hk⟩ := Tree.get?_numbered halternate n
    exact .conditional (by simpa using htype) hi hj hk hsimple (ihc i) (ihy j) (ihn k)

/-! ### Parentheses -/

theorem isTree (h : Denotes A v e) : ∃ t, v = .tree t := by
  cases h <;> exact ⟨_, rfl⟩

end Denotes

def operatorLevel (op : String) : Nat := (binaryOperators.lookup op).getD 0

/-- The table by which parentheses are written has the operators of the grammar, each at its
level; those of logical expressions are the loosest two. -/
theorem operatorLevel_spec : ∀ op ∈ Precedence.operators.map (·.1),
    (op, operatorLevel op) ∈ binaryOperators ∧ Precedence.ofOperator op = operatorLevel op ∧
      3 ≤ operatorLevel op ∧ operatorLevel op ≤ 12 ∧
      (Precedence.ofType (binaryType op) = 5 ∧ operatorLevel op ≤ 10 ∨
        Precedence.ofType (binaryType op) = 6 ∧ 11 ≤ operatorLevel op) ∧
      Precedence.isBinary (binaryType op) = true := by
  decide

namespace Precedence

variable {p t : Tree} {right : Bool}

theorem needsParens?_of_lt (h : ofType p.type < ofType t.type) :
    needsParens? p t right = some true := by
  simp [needsParens?, answer?, h, Json.truthy]

theorem needsParens?_of_gt (h : ofType t.type < ofType p.type) :
    needsParens? p t right = some false := by
  have hlt : ¬ ofType p.type < ofType t.type := by omega
  have hne : ofType p.type ≠ ofType t.type := by omega
  simp [needsParens?, answer?, hlt, hne, Json.truthy]

theorem needsParens?_of_not_isBinary (h : isBinary p.type = false) :
    needsParens? p t right = some (decide (ofType p.type < ofType t.type)) := by
  by_cases hlt : ofType p.type < ofType t.type
  · rw [needsParens?_of_lt hlt, decide_eq_true hlt]
  · simp [needsParens?, answer?, hlt, h, Json.truthy]

/-- Between two operators it is the table that counts, and on the right equal ones too. -/
theorem needsParens?_of_isBinary {m n : Int} (h : isBinary p.type = true)
    (htype : ofType p.type = ofType t.type) (hm : ofNode? p = some m) (hn : ofNode? t = some n) :
    needsParens? p t right = some (decide (m < n) || right && decide (n = m)) := by
  by_cases hmn : m < n
  · simp [needsParens?, answer?, htype, h, hm, hn, hmn, Json.truthy]
  · cases right <;> simp [needsParens?, answer?, htype, h, hm, hn, hmn, Json.truthy]

end Precedence

namespace Denotes

variable {A : Alphabet} {t p : Tree} {e : Expr}

/-- How tightly the type of a node binds bounds the level of its expression. -/
theorem level_le_of_ofType (h : Denotes A (.tree t) e) :
    (Precedence.ofType t.type ≤ 1 ∧ e.level ≤ 1) ∨ (Precedence.ofType t.type = 4 ∧ e.level = 2) ∨
      (∃ op l r, e = .binary op l r ∧ op ∈ Precedence.operators.map (·.1) ∧
        t.type = binaryType op ∧ t.get? "operator" = some (.str op)) ∨
      (Precedence.ofType t.type = 7 ∧ e.level = 13 ∧ e.isConditional = true) ∨
      (Precedence.ofType t.type = 8 ∧ e.level = 14) := by
  cases h with
  | ident _ htype | this _ htype | string _ htype | call _ htype | member htype | index htype =>
    exact .inl (by simp [htype, Precedence.ofType, Expr.level])
  | unary _ htype => exact .inr (.inl (by simp [htype, Precedence.ofType, Expr.level]))
  | binary hop htype hopField => exact .inr (.inr (.inl ⟨_, _, _, rfl, hop, htype, hopField⟩))
  | conditional htype =>
    exact .inr (.inr (.inr (.inl (by
      simp [htype, Precedence.ofType, Expr.level, Expr.isConditional]))))
  | assign htype => exact .inr (.inr (.inr (.inr (by simp [htype, Precedence.ofType, Expr.level]))))

theorem level_le (h : Denotes A (.tree t) e) : e.level ≤ 14 := by
  rcases h.level_le_of_ofType with h | h | ⟨op, l, r, rfl, hop, -⟩ | h | h
  · omega
  · omega
  · obtain ⟨-, -, -, hlevel, -⟩ := operatorLevel_spec op hop
    exact Nat.le_trans hlevel (by decide)
  · omega
  · omega

/-- A test that is no conditional itself stands in front of the question mark as it is. -/
theorem level_le_of_not_isConditional (h : Denotes A (.tree t) e)
    (hsimple : e.isConditional = false) (hlevel : e.level ≤ 13) : e.level ≤ 12 := by
  rcases h.level_le_of_ofType with h | h | ⟨op, l, r, rfl, hop, -⟩ | h | h
  · omega
  · omega
  · obtain ⟨-, -, -, hlevel, -⟩ := operatorLevel_spec op hop
    exact hlevel
  · rw [hsimple] at h
    exact absurd h.2.2 (by decide)
  · omega

/-- A part of a binary expression that is written without parentheses is of the level of the
operator at most, and below it on the right. -/
theorem needsParens?_binary (h : Denotes A (.tree t) e) {op : String}
    (hop : op ∈ Precedence.operators.map (·.1)) (htype : p.type = binaryType op)
    (hopField : p.get? "operator" = some (.str op)) (right : Bool) :
    ∃ b, Precedence.needsParens? p t right = some b ∧
      (b = false → e.level ≤ operatorLevel op - right.toNat) := by
  obtain ⟨-, hprec, hlow, hhigh, houter, hbinary⟩ := operatorLevel_spec op hop
  have hparent : Precedence.ofNode? p = some (operatorLevel op : Int) := by
    simp [Precedence.ofNode?, hopField, Value.key?, Json.key?, Key.text?, hprec]
  rw [← htype] at houter hbinary
  have hright : right.toNat ≤ 1 := Bool.toNat_le right
  rcases h.level_le_of_ofType with h | h | ⟨op', l, r, rfl, hop', htype', hopField'⟩ | h | h
  · exact ⟨false, Precedence.needsParens?_of_gt (by omega), fun _ => by omega⟩
  · exact ⟨false, Precedence.needsParens?_of_gt (by omega), fun _ => by omega⟩
  · obtain ⟨-, hprec', hlow', hhigh', hinner, -⟩ := operatorLevel_spec op' hop'
    have hpart : Precedence.ofNode? t = some (operatorLevel op' : Int) := by
      simp [Precedence.ofNode?, hopField', Value.key?, Json.key?, Key.text?, hprec']
    rw [← htype'] at hinner
    change ∃ b, _ ∧ (b = false → operatorLevel op' ≤ _)
    rcases Int.lt_trichotomy (Precedence.ofType p.type)
      (Precedence.ofType t.type) with hlt | heq | hgt
    · exact ⟨true, Precedence.needsParens?_of_lt hlt, by simp⟩
    · refine ⟨_, Precedence.needsParens?_of_isBinary hbinary heq hparent hpart, ?_⟩
      cases right
      · simp
      · simp
        omega
    · exact ⟨false, Precedence.needsParens?_of_gt hgt, fun _ => by omega⟩
  · exact ⟨true, Precedence.needsParens?_of_lt (by omega), by simp⟩
  · exact ⟨true, Precedence.needsParens?_of_lt (by omega), by simp⟩

/-- A part of another expression that is written without parentheses binds as tightly. -/
theorem needsParens?_other (h : Denotes A (.tree t) e) (hp : Precedence.isBinary p.type = false)
    (right : Bool) : ∃ b, Precedence.needsParens? p t right = some b ∧ (b = false →
      (Precedence.ofType p.type ≤ 1 → e.level ≤ 1) ∧ (Precedence.ofType p.type = 4 → e.level ≤ 2) ∧
        (Precedence.ofType p.type = 7 → e.level ≤ 13)) := by
  refine ⟨_, Precedence.needsParens?_of_not_isBinary hp, ?_⟩
  intro hb
  rw [decide_eq_false_iff_not] at hb
  rcases h.level_le_of_ofType with h | h | ⟨op, l, r, rfl, hop, htype, -⟩ | h | h
  · omega
  · omega
  · obtain ⟨-, -, -, hhigh, hinner, -⟩ := operatorLevel_spec op hop
    rw [← htype] at hinner
    change (_ → operatorLevel op ≤ _) ∧ (_ → operatorLevel op ≤ _) ∧ (_ → operatorLevel op ≤ _)
    omega
  · omega
  · omega

end Denotes

end ObjectiveJ
