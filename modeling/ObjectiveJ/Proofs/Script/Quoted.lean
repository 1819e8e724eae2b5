import ObjectiveJ.Json.Writer

/-!
# Strings of JavaScript

The value of a string is a sequence of UTF-16 units. `stringBody?` reads a string by the rules of
ECMAScript 5 from behind its first quote on, with its escape sequences, and says what follows it.
Once it has come to the end of a string, what follows makes no difference to it
(`stringBody?_append`).

A text in JSON is such a string, and its value is the text (`stringValue?_quote`).
-/

namespace ObjectiveJ.Script

variable {rest cs : List Char} {units : List Nat} {quote : Char}

/-- Characters that end a line. -/
@[irreducible] def isLineEnd (c : Char) : Bool :=
  let n := c.toNat
  n == 0xa || n == 0xd || n == 0x2028 || n == 0x2029

theorem isLineEnd_eq_false {c : Char} (h : 0x20 ≤ c.toNat ∧ c.toNat < 0x2028) :
    isLineEnd c = false := by
  simp only [isLineEnd, Bool.or_eq_false_iff, beq_eq_false_iff_ne]
  omega

/-- The UTF-16 units of a character. -/
def utf16 (c : Char) : List Nat :=
  let n := c.toNat
  if n < 0x10000 then [n] else [0xd800 + (n - 0x10000) / 1024, 0xdc00 + (n - 0x10000) % 1024]

def hexValue? (c : Char) : Option Nat :=
  if c.isDigit then some (c.toNat - 48)
  else if 'a' ≤ c ∧ c ≤ 'f' then some (c.toNat - 87)
  else if 'A' ≤ c ∧ c ≤ 'F' then some (c.toNat - 55)
  else none

/-- The number that so many hexadecimal digits after a first part make, and what follows them. -/
def hexNumber? : Nat → Nat → List Char → Option (Nat × List Char)
  | 0, value, cs => some (value, cs)
  | _ + 1, _, [] => none
  | n + 1, value, c :: cs =>
    match hexValue? c with
    | some digit => hexNumber? n (16 * value + digit) cs
    | none => none

/-- The letters that stand for control characters after a backslash. -/
def controlEscapes : List (Char × Nat) :=
  [('b', 8), ('t', 9), ('n', 10), ('v', 11), ('f', 12), ('r', 13)]

/-- The value of the escape sequence after a backslash, and what follows it: `u` has four digits and
`x` has two, a line end leaves nothing, a zero stands alone, and other digits are no escapes. -/
def escape? : List Char → Option (List Nat × List Char)
  | [] => none
  | c :: cs =>
    if c = 'u' then (hexNumber? 4 0 cs).map fun (n, rest) => ([n], rest)
    else if c = 'x' then (hexNumber? 2 0 cs).map fun (n, rest) => ([n], rest)
    else if c = '\r' then some ([], if cs.head? = some '\n' then cs.tail else cs)
    else if isLineEnd c then some ([], cs)
    else if c.isDigit then
      if c = '0' ∧ ¬ cs.head?.any Char.isDigit then some ([0], cs) else none
    else some (((controlEscapes.lookup c).map fun n => [n]).getD (utf16 c), cs)

theorem hexNumber?_length_le {n value v : Nat} (h : hexNumber? n value cs = some (v, rest)) :
    rest.length ≤ cs.length := by
  fun_induction hexNumber? n value cs with
  | case1 value cs =>
    obtain ⟨-, rfl⟩ := Prod.mk.inj (Option.some.inj h)
    exact Nat.le_refl _
  | case2 => cases h
  | case3 _ _ _ _ _ _ ih => exact Nat.le_succ_of_le (ih h)
  | case4 => cases h

theorem escape?_length_le (h : escape? cs = some (units, rest)) : rest.length ≤ cs.length := by
  cases cs with
  | nil => simp [escape?] at h
  | cons c cs =>
    have hhex : ∀ n, (hexNumber? n 0 cs).map (fun (n, rest) => ([n], rest)) = some (units, rest) →
        rest.length ≤ (c :: cs).length := by
      intro n hn
      obtain ⟨⟨v, r⟩, hr, heq⟩ := Option.map_eq_some_iff.1 hn
      obtain ⟨-, rfl⟩ := Prod.mk.inj heq
      exact Nat.le_succ_of_le (hexNumber?_length_le hr)
    rw [escape?] at h
    split at h
    · exact hhex 4 h
    · split at h
      · exact hhex 2 h
      · grind

/-- The value of a string from behind its first quote on, and what follows the string. -/
def stringBody? (quote : Char) : List Char → Option (List Nat × List Char)
  | [] => none
  | c :: cs =>
    if c = quote then some ([], cs)
    else if c = '\\' then
      match _h : escape? cs with
      | some (units, rest) => (stringBody? quote rest).map fun (more, rest) => (units ++ more, rest)
      | none => none
    else if isLineEnd c then none
    else (stringBody? quote cs).map fun (more, rest) => (utf16 c ++ more, rest)
termination_by cs => cs.length
decreasing_by
  · have := escape?_length_le _h
    simp
    omega
  · simp

theorem stringBody?_length_lt (h : stringBody? quote cs = some (units, rest)) :
    rest.length < cs.length := by
  fun_induction stringBody? quote cs generalizing units rest with
  | case1 => cases h
  | case2 cs =>
    obtain ⟨-, rfl⟩ := Prod.mk.inj (Option.some.inj h)
    simp
  | case3 cs units' rest' he hq ih =>
    obtain ⟨⟨more, r⟩, hr, heq⟩ := Option.map_eq_some_iff.1 h
    obtain ⟨-, rfl⟩ := Prod.mk.inj heq
    have := escape?_length_le he
    have := ih hr
    simp
    omega
  | case4 => cases h
  | case5 => cases h
  | case6 c cs hc hb hl ih =>
    obtain ⟨⟨more, r⟩, hr, heq⟩ := Option.map_eq_some_iff.1 h
    obtain ⟨-, rfl⟩ := Prod.mk.inj heq
    have := ih hr
    simp
    omega

/-- The value of a text in quotes of either kind, with nothing after it. -/
def stringValue? (text : String) : Option (List Nat) :=
  match text.toList with
  | [] => none
  | c :: cs =>
    if c = '"' ∨ c = '\'' then
      match stringBody? c cs with
      | some (units, []) => some units
      | _ => none
    else none

theorem exists_quote_of_stringValue? {text : String} (h : stringValue? text = some units) :
    ∃ c cs, text.toList = c :: cs ∧ (c = '"' ∨ c = '\'') ∧ stringBody? c cs = some (units, []) := by
  unfold stringValue? at h
  split at h
  · cases h
  · rename_i c cs heq
    split at h
    · rename_i hc
      split at h
      · rename_i units' hbody
        cases h
        exact ⟨c, cs, heq, hc, hbody⟩
      · cases h
    · cases h

/-! ### What follows a string -/

theorem hexNumber?_append {n value v : Nat} (h : hexNumber? n value cs = some (v, rest))
    (after : List Char) : hexNumber? n value (cs ++ after) = some (v, rest ++ after) := by
  fun_induction hexNumber? n value cs with
  | case1 value cs =>
    obtain ⟨rfl, rfl⟩ := Prod.mk.inj (Option.some.inj h)
    rw [hexNumber?]
  | case2 => cases h
  | case3 n value c cs digit hdigit ih =>
    simp only [List.cons_append, hexNumber?, hdigit]
    exact ih h
  | case4 => cases h

/-- An escape sequence that something follows is the same whatever comes later. -/
theorem escape?_append (h : escape? cs = some (units, rest)) (hne : rest ≠ []) (after : List Char) :
    escape? (cs ++ after) = some (units, rest ++ after) := by
  cases cs with
  | nil => simp [escape?] at h
  | cons c cs =>
    have hhex : ∀ n, (hexNumber? n 0 cs).map (fun (n, rest) => ([n], rest)) = some (units, rest) →
        (hexNumber? n 0 (cs ++ after)).map (fun (n, rest) => ([n], rest)) =
          some (units, rest ++ after) := by
      intro n hn
      obtain ⟨⟨v, r⟩, hr, heq⟩ := Option.map_eq_some_iff.1 hn
      obtain ⟨rfl, rfl⟩ := Prod.mk.inj heq
      rw [hexNumber?_append hr, Option.map_some]
    rw [List.cons_append, escape?]
    rw [escape?] at h
    split at h
    · rename_i hu
      rw [if_pos hu]
      exact hhex 4 h
    · rename_i hu
      rw [if_neg hu]
      split at h
      · rename_i hx
        rw [if_pos hx]
        exact hhex 2 h
      · rename_i hx
        rw [if_neg hx]
        -- something follows the character, so a look at what comes next sees the same
        cases cs with
        | nil => grind
        | cons d cs => grind

theorem stringBody?_append (h : stringBody? quote cs = some (units, rest)) (after : List Char) :
    stringBody? quote (cs ++ after) = some (units, rest ++ after) := by
  fun_induction stringBody? quote cs generalizing units rest with
  | case1 => cases h
  | case2 cs =>
    obtain ⟨rfl, rfl⟩ := Prod.mk.inj (Option.some.inj h)
    rw [List.cons_append, stringBody?, if_pos rfl]
  | case3 cs units' rest' he hq ih =>
    obtain ⟨⟨more, r⟩, hr, heq⟩ := Option.map_eq_some_iff.1 h
    obtain ⟨rfl, rfl⟩ := Prod.mk.inj heq
    have hne : rest' ≠ [] := by
      rintro rfl
      rw [stringBody?] at hr
      cases hr
    rw [List.cons_append, stringBody?, if_neg hq, if_pos rfl]
    split
    · rename_i r' hr'
      rw [escape?_append he hne] at hr'
      obtain ⟨rfl, rfl⟩ := Prod.mk.inj (Option.some.inj hr')
      rw [ih hr, Option.map_some]
    · rename_i hr'
      rw [escape?_append he hne] at hr'
      cases hr'
  | case4 => cases h
  | case5 => cases h
  | case6 c cs hq hb hl ih =>
    obtain ⟨⟨more, r⟩, hr, heq⟩ := Option.map_eq_some_iff.1 h
    obtain ⟨rfl, rfl⟩ := Prod.mk.inj heq
    rw [List.cons_append, stringBody?, if_neg hq, if_neg hb, if_neg hl, ih hr, Option.map_some]

/-! ### Texts in JSON -/

theorem hexValue?_hexDigit : ∀ n < 16, hexValue? (Text.hexDigit n false) = some n := by
  decide

theorem stringBody?_escape (hq : '\\' ≠ quote) (h : escape? cs = some (units, rest)) :
    stringBody? quote ('\\' :: cs) =
      (stringBody? quote rest).map fun (more, rest) => (units ++ more, rest) := by
  rw [stringBody?, if_neg hq, if_pos rfl]
  split
  · rename_i h'
    rw [h] at h'
    obtain ⟨rfl, rfl⟩ := Prod.mk.inj (Option.some.inj h')
    rfl
  · rename_i h'
    rw [h] at h'
    cases h'

theorem escape?_escapeUnit {n : Nat} (hn : n < 0x10000) (rest : List Char) :
    escape? ((Json.escapeUnit n).tail ++ rest) = some ([n], rest) := by
  have hdigit := hexValue?_hexDigit
  have hvalue : 16 * (16 * (16 * (16 * 0 + n / 4096 % 16) + n / 256 % 16) + n / 16 % 16) + n % 16 =
      n := by
    omega
  rw [Json.escapeUnit, List.tail_cons, List.cons_append, escape?, if_pos rfl]
  simp only [List.cons_append, List.nil_append, hexNumber?, hdigit _ (Nat.mod_lt _ (by decide)),
    hvalue, Option.map_some]

theorem escape?_letter {c : Char} (h : c ≠ 'u' ∧ c ≠ 'x' ∧ c ≠ '\r' ∧ c.isDigit = false)
    (hline : isLineEnd c = false) (rest : List Char) :
    escape? (c :: rest) = some (((controlEscapes.lookup c).map fun n => [n]).getD (utf16 c),
    rest) := by
  rw [escape?, if_neg h.1, if_neg h.2.1, if_neg h.2.2.1, if_neg (by simp [hline]),
    if_neg (by simp [h.2.2.2])]

/-- A character inside of a quoted text stands for itself. -/
theorem stringBody?_escapeChar (c : Char) (rest : List Char) :
    stringBody? '"' (Json.escapeChar c ++ rest) =
      (stringBody? '"' rest).map fun (more, rest) => (utf16 c ++ more, rest) := by
  have hunit : ∀ n < 0x10000, ∀ rest, stringBody? '"' (Json.escapeUnit n ++ rest) =
      (stringBody? '"' rest).map fun (more, rest) => ([n] ++ more, rest) := by
    intro n hn rest
    exact stringBody?_escape (by decide) (escape?_escapeUnit hn rest)
  have hletter : ∀ d, d ≠ 'u' ∧ d ≠ 'x' ∧ d ≠ '\r' ∧ d.isDigit = false →
      0x20 ≤ d.toNat ∧ d.toNat < 0x2028 →
      ((controlEscapes.lookup d).map fun n => [n]).getD (utf16 d) = utf16 c →
      stringBody? '"' (['\\', d] ++ rest) =
        (stringBody? '"' rest).map fun (more, rest) => (utf16 c ++ more, rest) := by
    intro d hd hline hvalue
    rw [← hvalue]
    exact stringBody?_escape (by decide) (escape?_letter hd (isLineEnd_eq_false hline) rest)
  unfold Json.escapeChar
  split
  · exact hletter '"' (by decide) (by decide) (by decide)
  · exact hletter '\\' (by decide) (by decide) (by decide)
  · exact hletter 'n' (by decide) (by decide) (by decide)
  · exact hletter 'r' (by decide) (by decide) (by decide)
  · exact hletter 't' (by decide) (by decide) (by decide)
  · exact hletter 'b' (by decide) (by decide) (by decide)
  · exact hletter 'f' (by decide) (by decide) (by decide)
  · rename_i hquote hslash _ _ _ _ _
    have hvalid : c.toNat < 0x110000 := by
      have := c.valid
      simp only [Char.toNat, UInt32.isValidChar, Nat.isValidChar] at this ⊢
      omega
    dsimp only
    split
    · rename_i hprint
      have hline : isLineEnd c = false := by
        unfold isLineEnd
        simp only [Bool.or_eq_false_iff, beq_eq_false_iff_ne]
        omega
      rw [List.cons_append, List.nil_append, stringBody?, if_neg hquote, if_neg hslash,
        if_neg (by simp [hline])]
    · split
      · rename_i hsmall
        rw [hunit _ hsmall, utf16, if_pos hsmall]
      · rename_i hlarge
        rw [List.append_assoc, hunit _ (by omega), hunit _ (by omega), utf16, if_neg hlarge]
        simp [Function.comp_def]

/-- The value of a text in JSON is the text. -/
theorem stringValue?_quote (s : String) :
    stringValue? (Json.quote s) = some (s.toList.flatMap utf16) := by
  have hbody : ∀ cs : List Char, stringBody? '"' (cs.flatMap Json.escapeChar ++ ['"']) =
      some (cs.flatMap utf16, []) := by
    intro cs
    induction cs with
    | nil => rw [List.flatMap_nil, List.nil_append, stringBody?, if_pos rfl, List.flatMap_nil]
    | cons c cs ih =>
      rw [List.flatMap_cons, List.append_assoc, stringBody?_escapeChar, ih]
      rfl
  simp only [stringValue?, Json.quote, String.toList_ofList, List.cons_append]
  rw [if_pos (by simp), hbody]

end ObjectiveJ.Script
