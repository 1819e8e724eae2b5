import ObjectiveJ.Format.Load
import ObjectiveJ.Proofs.Layout

/-!
# What the bundled formats write around expressions

Both bundled formats treat expressions alike: there is a blank on either side of an operator and one
after a comma, and nothing else. None of these values is a choice, so they do not depend on what
surrounds the expression. An expression statement that is the first one in its program has nothing
before it and a semicolon after it.
-/

namespace ObjectiveJ.Format

variable {f : Format} {type : String}

def bundled (name : String) : Format := (ofName name).toOption.getD {}

theorem ofName_bundled : ∀ name ∈ ["cappuccino", "compact"], ofName name = .ok (bundled name) := by
  have hok : ∀ name ∈ ["cappuccino", "compact"], (ofName name).toBool = true := by decide +kernel
  intro name hname
  have hname := hok name hname
  cases h : ofName name with
  | error e =>
    rw [h] at hname
    cases hname
  | ok f => rw [bundled, h, Except.toOption, Option.getD_some]

theorem eq_bundled_of_ofName {name : String} (h : ofName name = .ok f) :
    f = bundled "cappuccino" ∨ f = bundled "compact" := by
  have hbundled : f = bundled name := by
    rw [bundled, h]
    rfl
  by_cases hcappuccino : name = "cappuccino"
  · exact .inl (hcappuccino ▸ hbundled)
  · by_cases hcompact : name = "compact"
    · exact .inr (hcompact ▸ hbundled)
    · have hlookup : Bundled.all.lookup name = none := by
        simp [Bundled.all, List.lookup_cons, beq_eq_false_iff_ne.2 hcappuccino,
          beq_eq_false_iff_ne.2 hcompact]
      simp [ofName, hlookup] at h

/-! ### Values that are no choices -/

/-- What a format has for a key of a type whatever surrounds the node, the empty text if it has
nothing; none if that depends on it or is not written as it is. -/
def fixed? (f : Format) (type key : String) : Option String :=
  match nodeType? type with
  | none => some ""
  | some item =>
    if ((f.data.get? (.text item)).bind (·.get? key)).isSome then none
    else match f.global key with
      | .null => some ""
      | .str s => if isPlainText s.toList then some s else none
      | _ => none

theorem plainText?_of_fixed? {key s : String} (h : f.fixed? type key = some s)
    (hempty : type.isEmpty = false) (ancestry : Ancestry) :
    (Instr.hook 0 type (.plain key) ancestry).plainText? f = some s.toList := by
  unfold fixed? at h
  cases hitem : nodeType? type with
  | none =>
    simp only [hitem] at h
    cases h
    simp [Instr.plainText?, valueFor, hempty, hitem]
  | some item =>
    simp only [hitem] at h
    cases hown : (f.data.get? (.text item)).bind (·.get? key) with
    | some value => simp [hown] at h
    | none =>
      rw [hown, if_neg (by simp)] at h
      simp only [Instr.plainText?, valueFor, hempty, Bool.false_eq_true, if_false, hitem, hown,
        Option.bind_none]
      cases hglobal : f.global key with
      | null =>
        rw [hglobal] at h
        cases h
        rfl
      | str text =>
        simp only [hglobal] at h
        cases hplain : isPlainText text.toList with
        | false => simp [hplain] at h
        | true =>
          rw [hplain, if_pos rfl] at h
          cases h
          simp [outcome?, hplain]
      | _ => simp [hglobal] at h

/-- The types of expressions that are made of operators. -/
def operatorTypes : List String := [
  "Identifier", "Literal", "ThisExpression", "UnaryExpression", "BinaryExpression",
  "LogicalExpression", "CallExpression", "MemberExpression", "AssignmentExpression",
  "ConditionalExpression"]

/-- What stands around the pieces of an expression. -/
def pieces : List (String × String) := [
  ("before", ""), ("after", ""), ("before-operator", " "), ("after-operator", " "),
  ("before-comma", ""), ("after-comma", " "), ("before-left-parens", ""), ("after-left-parens", ""),
  ("before-right-parens", ""), ("after-right-parens", ""), ("before-left-bracket", ""),
  ("after-left-bracket", ""), ("before-right-bracket", ""), ("after-right-bracket", "")]

theorem fixed?_bundled : ∀ f ∈ [bundled "cappuccino", bundled "compact"], ∀ type ∈ operatorTypes,
    ∀ p ∈ pieces, f.fixed? type p.1 = some p.2 := by
  have hall : (["cappuccino", "compact"].all fun name => operatorTypes.all fun type =>
      pieces.all fun p => (bundled name).fixed? type p.1 == some p.2) = true := by
    decide +kernel
  simp only [List.all_eq_true, beq_iff_eq] at hall
  intro f hf
  obtain ⟨name, hname, rfl⟩ : ∃ name ∈ ["cappuccino", "compact"], bundled name = f := by
    simpa [eq_comm] using hf
  exact hall name hname

theorem fixed?_program (hf : f = bundled "cappuccino" ∨ f = bundled "compact") :
    ∀ key ∈ ["before", "after"], f.fixed? "Program" key = some "" := by
  rcases hf with rfl | rfl <;> decide +kernel

/-! ### Statements -/

/-- A choice made within so many steps. -/
def resolveWithin (f : Format) (ancestry : Option Ancestry) (type : String) :
    Nat → List (String × Json) → Option Json → Nat → Option Choice
  | 0, _, _, _ => none
  | n + 1, table, fallback, parents =>
    match step f ancestry type table fallback parents with
    | .done c => some c
    | .choose table fallback parents => resolveWithin f ancestry type n table fallback parents

theorem resolve_of_resolveWithin {ancestry : Option Ancestry} {n : Nat}
    {table : List (String × Json)} {fallback : Option Json} {parents : Nat} {c : Choice}
    (h : resolveWithin f ancestry type n table fallback parents = some c) :
    resolve f ancestry type table fallback parents = c := by
  induction n generalizing table fallback parents with
  | zero => cases h
  | succ n ih =>
    rw [resolveWithin] at h
    rw [resolve]
    split
    · rename_i hstep
      rw [hstep] at h
      exact Option.some.inj h
    · rename_i hstep
      rw [hstep] at h
      exact ih h

def choice? (f : Format) (type key : String) : Option (List (String × Json)) :=
  match (nodeType? type).bind fun item => (f.data.get? (.text item)).bind (·.get? key) with
  | some (.obj table) => some table
  | _ => none

theorem plainText?_of_choice? {key s : String} {ancestry : Ancestry} {table : List (String × Json)}
    (hchoice : f.choice? type key = some table)
    (h : f.resolve (some ancestry) type table none 0 = .text s)
    (hplain : isPlainText s.toList = true) (hempty : type.isEmpty = false) :
    (Instr.hook 0 type (.plain key) ancestry).plainText? f = some s.toList := by
  unfold choice? at hchoice
  split at hchoice
  · rename_i table' hown
    cases hchoice
    obtain ⟨item, hitem, hown⟩ := Option.bind_eq_some_iff.1 hown
    simp only [Instr.plainText?, valueFor, hempty, Bool.false_eq_true, if_false, hitem, hown,
      Option.bind_some, outcome?, h, hplain, if_true]
  · cases hchoice

/-- The ancestry of an expression statement that comes first in its program. -/
def firstStatement (role : StatementRole) : Ancestry :=
  (({} : Ancestry).push "Program" .other).push "ExpressionStatement" role

theorem plainText?_before_firstStatement (hf : f = bundled "cappuccino" ∨ f = bundled "compact")
    {role : StatementRole} (hrole : role = .assignment ∨ role = .other) :
    (Instr.hook 0 "ExpressionStatement" (.plain "before") (firstStatement role)).plainText? f =
      some [] := by
  have hall : (["cappuccino", "compact"].all fun name => [true, false].all fun assigns =>
      let f := bundled name
      let ancestry := firstStatement (if assigns then .assignment else .other)
      ((f.choice? "ExpressionStatement" "before").bind fun table =>
        f.resolveWithin (some ancestry) "ExpressionStatement" 5 table none 0) ==
          some (.text "")) = true := by
    decide +kernel
  simp only [List.all_eq_true, beq_iff_eq] at hall
  obtain ⟨name, hname, rfl⟩ : ∃ name ∈ ["cappuccino", "compact"], bundled name = f := by
    simpa [eq_comm] using hf
  obtain ⟨assigns, hassigns, rfl⟩ : ∃ assigns ∈ [true, false],
      (if assigns then StatementRole.assignment else .other) = role := by
    simpa [eq_comm, or_comm] using hrole
  obtain ⟨table, hchoice, hwithin⟩ := Option.bind_eq_some_iff.1 (hall name hname assigns hassigns)
  exact plainText?_of_choice? hchoice (resolve_of_resolveWithin hwithin) (by decide) (by decide)

theorem plainText?_after_statement (hf : f = bundled "cappuccino" ∨ f = bundled "compact")
    (ancestry : Ancestry) :
    (Instr.hook 0 "ExpressionStatement" (.plain "after") ancestry).plainText? f = some [';'] := by
  have hall : ∀ name ∈ ["cappuccino", "compact"],
      ((bundled name).choice? "ExpressionStatement" "after").map (·.map fun p => (p.1, p.2.str?)) =
        some [("*", some ";")] := by
    decide +kernel
  obtain ⟨name, hname, rfl⟩ : ∃ name ∈ ["cappuccino", "compact"], bundled name = f := by
    simpa [eq_comm] using hf
  obtain ⟨table, hchoice, htable⟩ := Option.map_eq_some_iff.1 (hall name hname)
  obtain ⟨key, value, rfl, rfl, hvalue⟩ :
      ∃ key value, table = [(key, value)] ∧ key = "*" ∧ value.str? = some ";" := by
    obtain ⟨entry, rest, rfl, hentry, hrest⟩ := List.map_eq_cons_iff.1 htable
    obtain rfl := List.map_eq_nil_iff.1 hrest
    exact ⟨entry.1, entry.2, rfl, (Prod.mk.inj hentry).1, (Prod.mk.inj hentry).2⟩
  -- a choice with no branches takes its only entry
  have hresolve : (bundled name).resolve (some ancestry) "ExpressionStatement"
      [("*", value)] none 0 = .text ";" := by
    cases value with
    | str s =>
      cases hvalue
      exact resolve_of_resolveWithin (n := 1) rfl
    | _ => cases hvalue
  exact plainText?_of_choice? hchoice hresolve (by decide) (by decide)

end ObjectiveJ.Format
