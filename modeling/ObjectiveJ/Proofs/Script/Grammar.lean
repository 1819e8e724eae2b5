import ObjectiveJ.Proofs.Script.Token

/-!
# The expression grammar of JavaScript

`Derives k ts e` says that the expression grammar of ECMAScript 5 derives the tokens `ts` at level
`k` with the tree `e`. A level stands for a nonterminal, and each includes those below it:

* 0, `PrimaryExpression`, where parentheses are and leave no trace in the tree;
* 1, `LeftHandSideExpression`: members, indices and calls;
* 2, `UnaryExpression`;
* 3 to 12, from `MultiplicativeExpression` to `LogicalORExpression`, associative to the left;
* 13, `ConditionalExpression`, and 14, `AssignmentExpression`, associative to the right;
* 15, `Expression`, with commas.

Left out are the expressions that no operator of this grammar is made of: numbers, regular
expressions, arrays, objects, functions, `new` and the updates `++` and `--` after a variable.
-/

namespace ObjectiveJ.Script

variable {ts : List Token} {k : Nat}

/-- Expressions as trees. A string is known by its value. -/
inductive Expr where
  | ident (name : String)
  | this
  | string (units : List Nat)
  | unary (op : String) (argument : Expr)
  | binary (op : String) (left right : Expr)
  | call (callee : Expr) (arguments : List Expr)
  | member (object : Expr) (name : String)
  | index (object property : Expr)
  | assign (op : String) (target value : Expr)
  | conditional (test yes no : Expr)
  | sequence (first second : Expr)

def reservedWords : List String := [
  "break", "case", "catch", "class", "const", "continue", "debugger", "default", "delete", "do",
  "else", "enum", "export", "extends", "false", "finally", "for", "function", "if", "import", "in",
  "instanceof", "new", "null", "return", "super", "switch", "this", "throw", "true", "try",
  "typeof", "var", "void", "while", "with"]

def unaryOperators : List String :=
  ["delete", "void", "typeof", "++", "--", "+", "-", "~", "!"]

def binaryOperators : List (String × Nat) := [
  ("*", 3), ("/", 3), ("%", 3), ("+", 4), ("-", 4), ("<<", 5), (">>", 5), (">>>", 5), ("<", 6),
  (">", 6), ("<=", 6), (">=", 6), ("instanceof", 6), ("in", 6), ("==", 7), ("!=", 7), ("===", 7),
  ("!==", 7), ("&", 8), ("^", 9), ("|", 10), ("&&", 11), ("||", 12)]

def assignmentOperators : List String :=
  ["=", "*=", "/=", "%=", "+=", "-=", "<<=", ">>=", ">>>=", "&=", "^=", "|="]

/-- The token of an operator, which is a word or a mark. -/
def operatorToken (op : String) : Token :=
  if op.toList.all Char.isAlpha then .word op else .mark op

/-- Token lists with a comma between each two. -/
def commaSeparated : List (List Token) → List Token
  | [] => []
  | [ts] => ts
  | ts :: rest => ts ++ .mark "," :: commaSeparated rest

inductive Derives : Nat → List Token → Expr → Prop
  | ident {name : String} (h : name ∉ reservedWords) : Derives 0 [.word name] (.ident name)
  | this : Derives 0 [.word "this"] .this
  | string {text : String} {units : List Nat} (h : stringValue? text = some units) :
      Derives 0 [.string text] (.string units)
  | group {ts : List Token} {e : Expr} (h : Derives 15 ts e) :
      Derives 0 (.mark "(" :: ts ++ [.mark ")"]) e
  | member {ts : List Token} {object : Expr} (name : String) (h : Derives 1 ts object) :
      Derives 1 (ts ++ [.mark ".", .word name]) (.member object name)
  | index {ts us : List Token} {object property : Expr} (h : Derives 1 ts object)
      (hp : Derives 15 us property) :
      Derives 1 (ts ++ .mark "[" :: us ++ [.mark "]"]) (.index object property)
  | call {ts : List Token} {callee : Expr} (parts : List (List Token × Expr))
      (h : Derives 1 ts callee) (hparts : ∀ p ∈ parts, Derives 14 p.1 p.2) :
      Derives 1 (ts ++ .mark "(" :: commaSeparated (parts.map (·.1)) ++ [.mark ")"])
        (.call callee (parts.map (·.2)))
  | unary {op : String} {ts : List Token} {e : Expr} (hop : op ∈ unaryOperators)
      (h : Derives 2 ts e) : Derives 2 (operatorToken op :: ts) (.unary op e)
  | binary {op : String} {k : Nat} {ts us : List Token} {left right : Expr}
      (hop : (op, k + 1) ∈ binaryOperators) (hl : Derives (k + 1) ts left)
      (hr : Derives k us right) :
      Derives (k + 1) (ts ++ operatorToken op :: us) (.binary op left right)
  | conditional {ts us vs : List Token} {test yes no : Expr} (ht : Derives 12 ts test)
      (hy : Derives 14 us yes) (hn : Derives 14 vs no) :
      Derives 13 (ts ++ .mark "?" :: us ++ .mark ":" :: vs) (.conditional test yes no)
  | assign {op : String} {ts us : List Token} {target value : Expr}
      (hop : op ∈ assignmentOperators) (ht : Derives 1 ts target) (hv : Derives 14 us value) :
      Derives 14 (ts ++ .mark op :: us) (.assign op target value)
  | sequence {ts us : List Token} {first second : Expr} (h : Derives 15 ts first)
      (h' : Derives 14 us second) :
      Derives 15 (ts ++ .mark "," :: us) (.sequence first second)
  | weaken {k : Nat} {ts : List Token} {e : Expr} (hk : k < 15) (h : Derives k ts e) :
      Derives (k + 1) ts e

namespace Derives

theorem mono {j : Nat} {e : Expr} (h : Derives j ts e) (hjk : j ≤ k) (hk : k ≤ 15) :
    Derives k ts e := by
  induction k with
  | zero =>
    obtain rfl : j = 0 := by omega
    exact h
  | succ k ih =>
    rcases Nat.lt_or_ge k j with hlt | hge
    · obtain rfl : j = k + 1 := by omega
      exact h
    · exact weaken (by omega) (ih hge (by omega))

theorem parenthesized {e : Expr} (h : Derives k ts e) (hk : k ≤ 15) :
    Derives 0 (.mark "(" :: ts ++ [.mark ")"]) e :=
  group (h.mono hk (Nat.le_refl _))

end Derives

/-! ### The first token -/

/-- Whether an expression may start with a token; up to level 1 it does not start with a unary
operator. -/
def isFirst (k : Nat) : Token → Bool
  | .word name => name == "this" || !reservedWords.contains name ||
      (1 < k && unaryOperators.contains name)
  | .string _ => true
  | .mark m => m == "(" || (1 < k && unaryOperators.contains m)

theorem isFirst_mono {j : Nat} (hjk : j ≤ k) {t : Token} (h : isFirst j t = true) :
    isFirst k t = true := by
  cases t with
  | string => rfl
  | word | mark =>
    simp only [isFirst, Bool.or_eq_true, Bool.and_eq_true, decide_eq_true_eq] at h ⊢
    rcases h with h | ⟨hj, h⟩
    · exact .inl h
    · exact .inr ⟨by omega, h⟩

theorem isFirst_operatorToken : ∀ op ∈ unaryOperators, isFirst 2 (operatorToken op) = true := by
  decide

theorem Derives.exists_first {e : Expr} (h : Derives k ts e) :
    ∃ t rest, ts = t :: rest ∧ isFirst k t = true := by
  induction h with
  | ident h => exact ⟨_, _, rfl, by simp [isFirst, h]⟩
  | this => exact ⟨_, _, rfl, rfl⟩
  | string => exact ⟨_, _, rfl, rfl⟩
  | group => exact ⟨_, _, rfl, rfl⟩
  | unary hop => exact ⟨_, _, rfl, isFirst_operatorToken _ hop⟩
  | weaken _ _ ih =>
    obtain ⟨t, rest, rfl, ht⟩ := ih
    exact ⟨t, rest, rfl, isFirst_mono (Nat.le_succ _) ht⟩
  | member _ _ ih | index _ _ ih | call _ _ _ ih | binary _ _ _ ih | sequence _ _ ih =>
    obtain ⟨t, rest, rfl, ht⟩ := ih
    exact ⟨t, _, rfl, ht⟩
  | conditional _ _ _ ih =>
    obtain ⟨t, rest, rfl, ht⟩ := ih
    exact ⟨t, _, rfl, isFirst_mono (by decide) ht⟩
  | assign _ _ _ ih =>
    obtain ⟨t, rest, rfl, ht⟩ := ih
    exact ⟨t, _, rfl, isFirst_mono (by decide) ht⟩

end ObjectiveJ.Script
