import ObjectiveJ.Proofs.Script.Quoted

/-!
# Tokens of JavaScript

Generated code is JavaScript, and what it means begins with its tokens. `lex` reads a text by the
lexical rules of ECMAScript 5: blanks and comments separate tokens and leave no trace, a name is as
long as it can be, and so is a mark such as `>>>=`. Numbers and regular expressions are left out,
so a slash that starts no comment is always a mark.

Which characters beyond ASCII are letters is a matter of the version of Unicode. An `Alphabet` says
so, and nothing here depends on the choice.

The lemmas say what `lex` does with a text that starts with a blank, a name, a string or a mark,
whatever follows it. A name ends where no character of a name follows, and a mark where it cannot
be made longer (`extensions`).
-/

namespace ObjectiveJ.Script

variable {rest cs : List Char} {A : Alphabet} {c : Char} {t : Token}

/-- A token: a name or reserved word, a string as it is written, or a mark. -/
inductive Token where
  | word (name : String)
  | string (text : String)
  | mark (text : String)
  deriving Repr, DecidableEq

def isSpace (c : Char) : Bool :=
  let n := c.toNat
  isLineEnd c || n == 0x9 || n == 0xb || n == 0xc || n == 0x20 || n == 0xa0 || n == 0xfeff ||
    n == 0x1680 || n == 0x180e || (0x2000 ≤ n && n ≤ 0x200a) || n == 0x202f || n == 0x205f ||
    n == 0x3000

@[simp] theorem isSpace_blank : isSpace ' ' = true := by simp [isSpace]

@[simp] theorem isSpace_newline : isSpace '\n' = true := by simp [isSpace, isLineEnd]

theorem isSpace_eq_false (h : 0x20 < c.toNat ∧ c.toNat < 0x80) : isSpace c = false := by
  have hend : isLineEnd c = false := isLineEnd_eq_false (by omega)
  simp only [isSpace, hend, Bool.or_eq_false_iff, Bool.and_eq_false_iff, beq_eq_false_iff_ne,
    decide_eq_false_iff_not, true_and]
  omega

/-- The characters of names beyond ASCII: those that may stand first, and those that may only
follow. -/
structure Alphabet where
  isLetter : Char → Bool
  isMark : Char → Bool

namespace Alphabet

def starts (A : Alphabet) (c : Char) : Bool :=
  c.isAlpha || c == '$' || c == '_' || (128 ≤ c.toNat && !isSpace c && A.isLetter c)

def continues (A : Alphabet) (c : Char) : Bool :=
  A.starts c || c.isDigit || (128 ≤ c.toNat && !isSpace c && A.isMark c)

end Alphabet

/-- The marks, longer ones before those that they start with. -/
def marks : List String := [
  ">>>=", "===", "!==", ">>>", "<<=", ">>=", "<=", ">=", "==", "!=", "++", "--", "<<", ">>", "&&",
  "||", "+=", "-=", "*=", "%=", "&=", "|=", "^=", "/=", "\x7b", "\x7d", "(", ")", "[", "]", ".",
  ";", ",", "<", ">", "+", "-", "*", "%", "&", "|", "^", "!", "~", "?", ":", "=", "/"]

/-- The first mark of the list that a text starts with. -/
def mark? (cs : List Char) : Option String := marks.find? fun m => m.toList.isPrefixOf cs

/-! ### Reading tokens -/

/-- The token that a text starts with, and the text after it. -/
def token? (A : Alphabet) (c : Char) (cs : List Char) : Option (Token × List Char) :=
  if A.starts c then
    some (.word (String.ofList (c :: cs.takeWhile A.continues)), cs.dropWhile A.continues)
  else if c = '"' ∨ c = '\'' then
    (stringBody? c cs).map fun (_, rest) =>
      (.string (String.ofList (c :: cs.take (cs.length - rest.length))), rest)
  else (mark? (c :: cs)).map fun m => (.mark m, cs.drop (m.toList.length - 1))

/-- What follows a comment that may go over several lines. -/
def commentRest : List Char → Option (List Char)
  | '*' :: '/' :: rest => some rest
  | _ :: rest => commentRest rest
  | [] => none

theorem commentRest_length_le (h : commentRest cs = some rest) : rest.length ≤ cs.length := by
  fun_induction commentRest cs with
  | case1 rest' =>
    cases h
    simp
    omega
  | case2 c cs hne ih =>
    have := ih h
    simp
    omega
  | case3 => simp at h

theorem token?_length_le (h : token? A c cs = some (t, rest)) : rest.length ≤ cs.length := by
  unfold token? at h
  split at h
  · obtain ⟨-, rfl⟩ := Prod.mk.inj (Option.some.inj h)
    exact (List.dropWhile_sublist _).length_le
  · split at h
    · obtain ⟨⟨units, r⟩, hr, hrest⟩ := Option.map_eq_some_iff.1 h
      obtain ⟨-, rfl⟩ := Prod.mk.inj hrest
      exact Nat.le_of_lt (stringBody?_length_lt hr)
    · obtain ⟨m, -, hrest⟩ := Option.map_eq_some_iff.1 h
      obtain ⟨-, rfl⟩ := Prod.mk.inj hrest
      simp

/-- The first thing in a text, a token or something without one, and the text after it. -/
def next? (A : Alphabet) (c : Char) (cs : List Char) : Option (List Token × List Char) :=
  if isSpace c then some ([], cs)
  else if c = '/' ∧ cs.head? = some '/' then some ([], cs.dropWhile fun d => !isLineEnd d)
  else if c = '/' ∧ cs.head? = some '*' then (commentRest cs.tail).map fun rest => ([], rest)
  else (token? A c cs).map fun (t, rest) => ([t], rest)

theorem next?_length_le {ts : List Token} (h : next? A c cs = some (ts, rest)) :
    rest.length ≤ cs.length := by
  unfold next? at h
  split at h
  · obtain ⟨-, rfl⟩ := Prod.mk.inj (Option.some.inj h)
    exact Nat.le_refl _
  · split at h
    · obtain ⟨-, rfl⟩ := Prod.mk.inj (Option.some.inj h)
      exact (List.dropWhile_sublist _).length_le
    · split at h
      · obtain ⟨r, hr, hrest⟩ := Option.map_eq_some_iff.1 h
        obtain ⟨-, rfl⟩ := Prod.mk.inj hrest
        have hlen := commentRest_length_le hr
        have htail := List.length_tail (l := cs)
        omega
      · obtain ⟨⟨t, r⟩, hr, hrest⟩ := Option.map_eq_some_iff.1 h
        obtain ⟨-, rfl⟩ := Prod.mk.inj hrest
        exact token?_length_le hr

theorem next?_space (A : Alphabet) (hc : isSpace c = true) (cs : List Char) :
    next? A c cs = some ([], cs) := by
  rw [next?, if_pos hc]

theorem next?_token (hspace : isSpace c = false)
    (hcomment : c = '/' → ∀ d ∈ cs.head?, d ≠ '/' ∧ d ≠ '*') (ht : token? A c cs = some (t, rest)) :
    next? A c cs = some ([t], rest) := by
  have hline : ¬ (c = '/' ∧ cs.head? = some '/') := fun h => (hcomment h.1 '/' h.2).1 rfl
  have hblock : ¬ (c = '/' ∧ cs.head? = some '*') := fun h => (hcomment h.1 '*' h.2).2 rfl
  rw [next?, if_neg (by simp [hspace]), if_neg hline, if_neg hblock, ht]
  rfl

/-- A comment up to the end of its line has no tokens. -/
theorem next?_lineComment (A : Alphabet) (h : ∀ c ∈ cs, isLineEnd c = false)
    (hrest : ∀ c ∈ rest.head?, isLineEnd c = true) :
    next? A '/' ('/' :: (cs ++ rest)) = some ([], rest) := by
  have hspace : isSpace '/' = false := isSpace_eq_false (by decide)
  have hkeep : ∀ c ∈ '/' :: cs, (!isLineEnd c) = true := by
    intro c hc
    rcases List.mem_cons.1 hc with rfl | hc
    · rw [isLineEnd_eq_false (by decide)]
      rfl
    · simp [h c hc]
  have hdrop : ('/' :: (cs ++ rest)).dropWhile (fun d => !isLineEnd d) = rest := by
    rw [← List.cons_append, List.dropWhile_append_of_pos hkeep]
    cases rest with
    | nil => rfl
    | cons d rest => simp [hrest d rfl]
  rw [next?, if_neg (by simp [hspace]), if_pos ⟨rfl, rfl⟩, hdrop]

-- the equations of the function below are found faster so
attribute [irreducible] next?

/-- The tokens of a text, if it has nothing else in it. -/
def lex (A : Alphabet) : List Char → Option (List Token)
  | [] => some []
  | c :: cs =>
    match _h : next? A c cs with
    | some (ts, rest) => (lex A rest).map (ts ++ ·)
    | none => none
termination_by cs => cs.length
decreasing_by
  have := next?_length_le _h
  simp
  omega

/-! ### Blanks and names -/

@[simp] theorem lex_nil (A : Alphabet) : lex A [] = some [] := by rw [lex]

theorem lex_next {ts : List Token} (h : next? A c cs = some (ts, rest)) :
    lex A (c :: cs) = (lex A rest).map (ts ++ ·) := by
  rw [lex]
  split
  · rename_i h'
    rw [h] at h'
    obtain ⟨rfl, rfl⟩ := Prod.mk.inj (Option.some.inj h')
    rfl
  · rename_i h'
    rw [h] at h'
    cases h'

theorem lex_space (A : Alphabet) (hc : isSpace c = true) (cs : List Char) :
    lex A (c :: cs) = lex A cs := by
  simpa using lex_next (next?_space A hc cs)

theorem lex_token (hspace : isSpace c = false)
    (hcomment : c = '/' → ∀ d ∈ cs.head?, d ≠ '/' ∧ d ≠ '*') (ht : token? A c cs = some (t, rest)) :
    lex A (c :: cs) = (lex A rest).map (t :: ·) :=
  lex_next (next?_token hspace hcomment ht)

theorem lex_lineComment (A : Alphabet) (h : ∀ c ∈ cs, isLineEnd c = false)
    (hrest : ∀ c ∈ rest.head?, isLineEnd c = true) :
    lex A ('/' :: '/' :: (cs ++ rest)) = lex A rest := by
  simpa using lex_next (next?_lineComment A h hrest)

namespace Alphabet

theorem not_isSpace_of_starts (h : A.starts c = true) : isSpace c = false := by
  have halpha : c.isAlpha = true → isSpace c = false := by
    intro hc
    change (decide ('A'.val ≤ c.val ∧ c.val ≤ 'Z'.val) ||
      (decide ('a'.val ≤ c.val) && decide (c.val ≤ 'z'.val))) = true at hc
    simp only [Bool.or_eq_true, Bool.and_eq_true, decide_eq_true_eq, UInt32.le_iff_toNat_le] at hc
    have hrange : 65 ≤ c.toNat ∧ c.toNat ≤ 122 := by
      have : 'A'.val.toNat = 65 ∧ 'Z'.val.toNat = 90 ∧ 'a'.val.toNat = 97 ∧ 'z'.val.toNat = 122 :=
        ⟨rfl, rfl, rfl, rfl⟩
      simp only [Char.toNat]
      omega
    exact isSpace_eq_false (by omega)
  simp only [starts, Bool.or_eq_true, beq_iff_eq, Bool.and_eq_true, decide_eq_true_eq,
    Bool.not_eq_true'] at h
  rcases h with ((h | rfl) | rfl) | ⟨⟨-, h⟩, -⟩
  · exact halpha h
  · exact isSpace_eq_false (by decide)
  · exact isSpace_eq_false (by decide)
  · exact h

theorem continues_of_starts (h : A.starts c = true) : A.continues c = true := by
  simp [continues, h]

/-- In ASCII, the characters of names are the same in every alphabet. -/
theorem starts_of_lt (A : Alphabet) (h : c.toNat < 128) :
    A.starts c = (c.isAlpha || c == '$' || c == '_') := by
  simp [starts, Nat.not_le.2 h]

theorem continues_of_lt (A : Alphabet) (h : c.toNat < 128) :
    A.continues c = (c.isAlpha || c == '$' || c == '_' || c.isDigit) := by
  simp [continues, A.starts_of_lt h, Nat.not_le.2 h]

/-- A name is not empty and has characters of names only. -/
def isName (A : Alphabet) (name : String) : Bool :=
  match name.toList with
  | [] => false
  | c :: cs => A.starts c && cs.all A.continues

end Alphabet

/-- A text that does not go on with a character of a name. -/
def Ends (A : Alphabet) (rest : List Char) : Prop := ∀ c ∈ rest.head?, A.continues c = false

theorem lex_word {name : String} (hname : A.isName name = true) (hrest : Ends A rest) :
    lex A (name.toList ++ rest) = (lex A rest).map (.word name :: ·) := by
  unfold Alphabet.isName at hname
  split at hname
  · cases hname
  · rename_i c cs heq
    obtain ⟨hc, hcs⟩ := Bool.and_eq_true_iff.1 hname
    rw [List.all_eq_true] at hcs
    have htake : (cs ++ rest).takeWhile A.continues = cs := by
      rw [List.takeWhile_append_of_pos hcs]
      cases rest with
      | nil => simp
      | cons d rest => simp [hrest d rfl]
    have hdrop : (cs ++ rest).dropWhile A.continues = rest := by
      rw [List.dropWhile_append_of_pos hcs]
      cases rest with
      | nil => simp
      | cons d rest => simp [hrest d rfl]
    have htoken : token? A c (cs ++ rest) = some (.word name, rest) := by
      rw [token?, if_pos hc, htake, hdrop, ← heq, String.ofList_toList]
    have hslash : c ≠ '/' := by
      rintro rfl
      rw [A.starts_of_lt (by decide)] at hc
      exact absurd hc (by decide)
    rw [heq, List.cons_append]
    exact lex_token (Alphabet.not_isSpace_of_starts hc) (fun h => absurd h hslash) htoken

/-! ### Strings -/

theorem lex_string {text : String} {units : List Nat} (htext : stringValue? text = some units)
    (rest : List Char) : lex A (text.toList ++ rest) = (lex A rest).map (.string text :: ·) := by
  obtain ⟨c, cs, heq, hc, hcs⟩ := exists_quote_of_stringValue? htext
  have hquote : c = '"' ∨ c = '\'' → isSpace c = false ∧ A.starts c = false ∧ c ≠ '/' := by
    rintro (rfl | rfl)
    · exact ⟨isSpace_eq_false (by decide), by rw [A.starts_of_lt (by decide)]; decide, by decide⟩
    · exact ⟨isSpace_eq_false (by decide), by rw [A.starts_of_lt (by decide)]; decide, by decide⟩
  obtain ⟨hspace, hstart, hslash⟩ := hquote hc
  have hrest := stringBody?_append hcs rest
  rw [List.nil_append] at hrest
  have htake : (cs ++ rest).take ((cs ++ rest).length - rest.length) = cs := by simp
  have htoken : token? A c (cs ++ rest) = some (.string text, rest) := by
    rw [token?, if_neg (by simp [hstart]), if_pos hc, hrest]
    simp only [Option.map_some]
    rw [htake, ← heq, String.ofList_toList]
  rw [heq, List.cons_append]
  exact lex_token hspace (fun h => absurd h hslash) htoken

/-! ### Marks -/

/-- The characters after a mark with which it is read as something longer: another mark, or the
start of a comment. -/
def extensions (m : String) : List Char :=
  marks.filterMap (fun l =>
    if m.toList.isPrefixOf l.toList then l.toList[m.toList.length]? else none)
    ++ if m = "/" then ['/', '*'] else []

theorem marks_pairwise : marks.Pairwise fun a b => a.toList.isPrefixOf b.toList = false := by
  decide +kernel

theorem mark?_append {m : String} (hm : m ∈ marks) (hrest : ∀ c ∈ rest.head?, c ∉ extensions m) :
    mark? (m.toList ++ rest) = some m := by
  obtain ⟨before, after, hsplit⟩ := List.append_of_mem hm
  have hpair := marks_pairwise
  rw [hsplit, List.pairwise_append] at hpair
  rw [mark?, List.find?_eq_some_iff_append]
  refine ⟨by simp, before, after, hsplit, ?_⟩
  intro a ha
  rw [Bool.not_eq_true', ← Bool.not_eq_true, List.isPrefixOf_iff_prefix]
  intro hprefix
  have hshort : ¬ a.toList <+: m.toList := by
    rw [← List.isPrefixOf_iff_prefix, hpair.2.2 a ha m (by simp)]
    simp
  -- an earlier mark is no start of this one, so it starts with it and takes the next character
  rcases List.prefix_or_prefix_of_prefix hprefix (List.prefix_append _ _) with h | ⟨t, ht⟩
  · exact hshort h
  · cases t with
    | nil => exact hshort (by simp [← ht])
    | cons c t =>
      rw [← ht, List.prefix_append_right_inj] at hprefix
      obtain ⟨more, rfl⟩ := hprefix
      refine hrest c (by simp) (List.mem_append_left _ (List.mem_filterMap.2 ?_))
      exact ⟨a, by simp [hsplit, ha], by simp [← ht]⟩

theorem marks_start : ∀ m ∈ marks, ∃ c cs, m.toList = c :: cs ∧ isSpace c = false ∧
    c.toNat < 128 ∧ (c.isAlpha || c == '$' || c == '_') = false ∧ c ≠ '"' ∧ c ≠ '\'' ∧
    (c = '/' → cs = [] ∨ cs = ['=']) := by
  have hstart : ∀ m ∈ marks, ((m.toList.head?.map fun c => !isSpace c && decide (c.toNat < 128) &&
      !(c.isAlpha || c == '$' || c == '_') && c != '"' && c != '\'' &&
      (c != '/' || m.toList.tail.isEmpty || m.toList.tail == ['='])).getD false) = true := by
    decide +kernel
  intro m hm
  have h := hstart m hm
  cases heq : m.toList with
  | nil => simp [heq] at h
  | cons c cs =>
    simp only [heq, List.head?_cons, List.tail_cons, Option.map_some, Option.getD_some,
      Bool.and_eq_true, Bool.not_eq_true', decide_eq_true_eq, bne_iff_ne, Bool.or_eq_true,
      List.isEmpty_iff, beq_iff_eq] at h
    grind

theorem lex_mark {m : String} (hm : m ∈ marks) (hrest : ∀ c ∈ rest.head?, c ∉ extensions m) :
    lex A (m.toList ++ rest) = (lex A rest).map (.mark m :: ·) := by
  obtain ⟨c, cs, heq, hspace, hascii, hletter, hdouble, hsingle, hslash⟩ := marks_start m hm
  have hmark := mark?_append hm hrest
  rw [heq, List.cons_append] at hmark ⊢
  have htoken : token? A c (cs ++ rest) = some (.mark m, rest) := by
    rw [token?, A.starts_of_lt hascii, if_neg (by simp [hletter]),
      if_neg (by simp [hdouble, hsingle]), hmark]
    simp [heq]
  refine lex_token hspace ?_ htoken
  intro hc
  rcases hslash hc with rfl | rfl
  · intro d hd
    have hm : m = "/" := by
      rw [← String.toList_inj, heq, hc]
      rfl
    have hd := hrest d (by simpa using hd)
    rw [extensions, if_pos hm, List.mem_append, not_or] at hd
    simpa using hd.2
  · intro d hd
    obtain rfl : '=' = d := by simpa using hd
    decide

end ObjectiveJ.Script
