import ObjectiveJ.Proofs.Script.Reading

/-!
# Texts of expressions

`Spells A k cs e` says that a text is read as the expression `e` at the level `k` of the grammar, in
whatever text it stands, as long as no character of a name follows it. Texts of expressions are put
together from those of their parts: there is a lemma for each production of the grammar, with the
blanks and commas between the parts. Parentheses take a text to the lowest level.
-/

namespace ObjectiveJ.Script

variable {op name : String}

variable {A : Alphabet} {j k : Nat} {cs ds : List Char} {e e' : Expr} (rest : List Char)

/-- A text that is read as an expression. It does not start with a character that would make a mark
in front of it longer. -/
structure Spells (A : Alphabet) (k : Nat) (cs : List Char) (e : Expr) : Prop where
  head : ∃ c ∈ cs.head?, c ≠ '='
  tokens : ∃ ts, Derives k ts e ∧
    ∀ rest, Ends A rest → lex A (cs ++ rest) = (lex A rest).map (ts ++ ·)

/-! ### Between the parts -/

theorem ends_cons {c : Char} (h : c.toNat < 128)
    (hc : (c.isAlpha || c == '$' || c == '_' || c.isDigit) = false) (rest : List Char) :
    Ends A (c :: rest) := by
  rintro d ⟨⟩
  rw [A.continues_of_lt h, hc]

/-- A mark that is no start of another one is read whatever follows it. -/
theorem lex_single {m : String} {c : Char} (hc : m.toList = [c]) (hm : m ∈ marks)
    (hext : extensions m = []) (rest : List Char) :
    lex A (c :: rest) = (lex A rest).map (.mark m :: ·) := by
  have hlex : lex A (m.toList ++ rest) = _ := lex_mark hm fun d _ => by simp [hext]
  rwa [hc] at hlex

theorem lex_leftParens : lex A ('(' :: rest) = (lex A rest).map (.mark "(" :: ·) :=
  lex_single rfl (by decide) (by decide) rest

theorem lex_rightParens :
    lex A (')' :: rest) = (lex A rest).map (.mark ")" :: ·) :=
  lex_single rfl (by decide) (by decide) rest

theorem lex_comma : lex A (',' :: rest) = (lex A rest).map (.mark "," :: ·) :=
  lex_single rfl (by decide) (by decide) rest

theorem operatorToken_of_mem_marks : ∀ m ∈ marks, operatorToken m = .mark m := by
  decide +kernel

theorem space_notMem_extensions : ∀ m ∈ marks, ' ' ∉ extensions m := by
  decide +kernel

/-- Letters make a name in every alphabet. -/
theorem isName_of_letters (hne : name ≠ "") (h : name.toList.all Char.isAlpha) :
    A.isName name = true := by
  rw [List.all_eq_true] at h
  have hletter : ∀ c : Char, c.isAlpha = true → A.starts c = true := by
    intro c hc
    simp [Alphabet.starts, hc]
  unfold Alphabet.isName
  split
  · rename_i heq
    exact absurd (String.toList_eq_nil_iff.1 heq) hne
  · rename_i c cs heq
    rw [heq] at h
    rw [Bool.and_eq_true, List.all_eq_true]
    constructor
    · exact hletter c (h c (by simp))
    · intro d hd
      exact Alphabet.continues_of_starts (hletter d (h d (by simp [hd])))

/-- Whether an operator can be told from its operands if there are blanks around it. -/
def isOperator (op : String) : Bool :=
  marks.contains op || op != "" && op.toList.all Char.isAlpha

theorem lex_operator (hop : isOperator op = true) (rest : List Char) :
    lex A (' ' :: (op.toList ++ ' ' :: rest)) = (lex A rest).map (operatorToken op :: ·) := by
  have hblank : ∀ cs, lex A (' ' :: cs) = lex A cs := lex_space A isSpace_blank
  rw [hblank]
  simp only [isOperator, Bool.or_eq_true, Bool.and_eq_true, List.contains_iff_mem,
    bne_iff_ne] at hop
  rcases hop with hmark | ⟨hne, hword⟩
  · rw [operatorToken_of_mem_marks op hmark, lex_mark hmark, hblank]
    rintro c ⟨⟩
    exact space_notMem_extensions op hmark
  · rw [operatorToken, if_pos hword, lex_word (isName_of_letters hne hword), hblank]
    exact ends_cons (by decide) (by decide) rest

/-! ### The productions -/

namespace Spells

theorem mono (h : Spells A j cs e) (hjk : j ≤ k) (hk : k ≤ 15) : Spells A k cs e := by
  obtain ⟨ts, hts, hlex⟩ := h.tokens
  exact ⟨h.head, ts, hts.mono hjk hk, hlex⟩

theorem ident (hname : A.isName name = true) (h : name ∉ reservedWords) :
    Spells A 0 name.toList (.ident name) where
  head := by
    unfold Alphabet.isName at hname
    split at hname
    · cases hname
    · rename_i c cs heq
      rw [Bool.and_eq_true] at hname
      refine ⟨c, by simp [heq], ?_⟩
      rintro rfl
      rw [A.starts_of_lt (by decide)] at hname
      exact absurd hname.1 (by decide)
  tokens := ⟨_, .ident h, fun _ hrest => lex_word hname hrest⟩

theorem this : Spells A 0 "this".toList .this where
  head := ⟨'t', by decide, by decide⟩
  tokens := ⟨_, .this, fun _ hrest => lex_word (isName_of_letters (by decide) (by decide)) hrest⟩

theorem string {text : String} {units : List Nat} (h : stringValue? text = some units) :
    Spells A 0 text.toList (.string units) where
  head := by
    obtain ⟨c, cs, heq, hc, -⟩ := exists_quote_of_stringValue? h
    refine ⟨c, by simp [heq], ?_⟩
    rintro rfl
    exact absurd hc (by decide)
  tokens := ⟨_, .string h, fun rest _ => lex_string h rest⟩

theorem group (h : Spells A k cs e) (hk : k ≤ 15) : Spells A 0 ('(' :: (cs ++ [')'])) e where
  head := ⟨'(', rfl, by decide⟩
  tokens := by
    obtain ⟨ts, hts, hlex⟩ := h.tokens
    refine ⟨_, hts.parenthesized hk, fun rest _ => ?_⟩
    have hend : Ends A (')' :: rest) := ends_cons (by decide) (by decide) rest
    simp only [List.cons_append, List.append_assoc, List.nil_append]
    rw [lex_leftParens, hlex _ hend, lex_rightParens]
    simp [Option.map_map, Function.comp_def]

theorem head_append (h : Spells A k cs e) (ds : List Char) : ∃ c ∈ (cs ++ ds).head?, c ≠ '=' := by
  obtain ⟨c, hc, hne⟩ := h.head
  exact ⟨c, by simp [List.head?_append, Option.mem_def.1 hc], hne⟩

theorem member (h : Spells A 1 cs e) (hname : A.isName name = true) :
    Spells A 1 (cs ++ '.' :: name.toList) (.member e name) where
  head := h.head_append _
  tokens := by
    obtain ⟨ts, hts, hlex⟩ := h.tokens
    refine ⟨_, .member name hts, fun rest hrest => ?_⟩
    have hdot : lex A ('.' :: (name.toList ++ rest)) = _ :=
      lex_single (m := ".") rfl (by decide) (by decide) _
    simp only [List.cons_append, List.append_assoc]
    rw [hlex _ (ends_cons (by decide) (by decide) _), hdot, lex_word hname hrest]
    simp [Option.map_map, Function.comp_def]

theorem index (h : Spells A 1 cs e) (hp : Spells A k ds e') (hk : k ≤ 15) :
    Spells A 1 (cs ++ '[' :: (ds ++ [']'])) (.index e e') where
  head := h.head_append _
  tokens := by
    obtain ⟨ts, hts, hlex⟩ := h.tokens
    obtain ⟨us, hus, hlex'⟩ := (hp.mono hk (Nat.le_refl _)).tokens
    refine ⟨_, .index hts hus, fun rest hrest => ?_⟩
    have hopen : lex A ('[' :: (ds ++ ']' :: rest)) = _ :=
      lex_single (m := "[") rfl (by decide) (by decide) _
    have hclose : lex A (']' :: rest) = _ :=
      lex_single (m := "]") rfl (by decide) (by decide) _
    simp only [List.cons_append, List.append_assoc, List.nil_append]
    rw [hlex _ (ends_cons (by decide) (by decide) _), hopen,
      hlex' _ (ends_cons (by decide) (by decide) _), hclose]
    simp [Option.map_map, Function.comp_def]

theorem unaryMark (hop : op ∈ ["!", "~"]) (h : Spells A 2 cs e) :
    Spells A 2 (op.toList ++ cs) (.unary op e) where
  head := by
    have hhead : ∀ op ∈ ["!", "~"], ∃ c, op.toList = [c] ∧ c ≠ '=' := by
      simp only [List.forall_mem_cons]
      exact ⟨⟨'!', rfl, by decide⟩, ⟨'~', rfl, by decide⟩, by simp⟩
    obtain ⟨c, hc, hne⟩ := hhead op hop
    exact ⟨c, by simp [hc], hne⟩
  tokens := by
    obtain ⟨ts, hts, hlex⟩ := h.tokens
    obtain ⟨c, hc, hne⟩ := h.head
    have hops : ∀ op ∈ ["!", "~"], op ∈ unaryOperators ∧ op ∈ marks ∧
        (extensions op).all (· = '=') = true := by
      decide
    obtain ⟨hunary, hmark, hext⟩ := hops op hop
    rw [List.all_eq_true] at hext
    refine ⟨_, .unary hunary hts, fun rest hrest => ?_⟩
    have hlong : ∀ d ∈ (cs ++ rest).head?, d ∉ extensions op := by
      intro d hd hmem
      obtain rfl : c = d := by simpa [List.head?_append, Option.mem_def.1 hc] using hd
      exact hne (of_decide_eq_true (hext c hmem))
    rw [List.append_assoc, lex_mark hmark hlong, hlex _ hrest, operatorToken_of_mem_marks op hmark]
    simp [Option.map_map, Function.comp_def]

theorem unaryWord (hop : op ∈ ["delete", "void", "typeof"]) (h : Spells A 2 cs e) :
    Spells A 2 (op.toList ++ ' ' :: cs) (.unary op e) where
  head := by
    have hhead : ∀ op ∈ ["delete", "void",
        "typeof"], ((op.toList.head?).map (· != '=')).getD false := by
      decide
    have := hhead op hop
    cases hc : op.toList with
    | nil => simp [hc] at this
    | cons c cs => exact ⟨c, rfl, by simpa [hc] using this⟩
  tokens := by
    obtain ⟨ts, hts, hlex⟩ := h.tokens
    have hops : ∀ op ∈ ["delete", "void", "typeof"], op ∈ unaryOperators ∧ op ≠ "" ∧
        op.toList.all Char.isAlpha = true := by
      decide
    obtain ⟨hunary, hne, hletters⟩ := hops op hop
    refine ⟨_, .unary hunary hts, fun rest hrest => ?_⟩
    have hend : Ends A (' ' :: (cs ++ rest)) := ends_cons (by decide) (by decide) _
    rw [List.append_assoc, List.cons_append, lex_word (isName_of_letters hne hletters) hend,
      lex_space A isSpace_blank, hlex _ hrest, operatorToken, if_pos hletters]
    simp [Option.map_map, Function.comp_def]

theorem binary (hop : (op, k + 1) ∈ binaryOperators) (hl : Spells A (k + 1) cs e)
    (hr : Spells A k ds e') :
    Spells A (k + 1) (cs ++ ' ' :: (op.toList ++ ' ' :: ds)) (.binary op e e') where
  head := hl.head_append _
  tokens := by
    obtain ⟨ts, hts, hlex⟩ := hl.tokens
    obtain ⟨us, hus, hlex'⟩ := hr.tokens
    have hops : ∀ p ∈ binaryOperators, isOperator p.1 = true := by decide
    refine ⟨_, .binary hop hts hus, fun rest hrest => ?_⟩
    simp only [List.cons_append, List.append_assoc]
    rw [hlex _ (ends_cons (by decide) (by decide) _), lex_operator (hops _ hop), hlex' _ hrest]
    simp [Option.map_map, Function.comp_def]

theorem conditional {ds' : List Char} {yes no : Expr} (ht : Spells A 12 cs e)
    (hy : Spells A 14 ds yes) (hn : Spells A 14 ds' no) :
    Spells A 13 (cs ++ ' ' :: '?' :: ' ' :: (ds ++ ' ' :: ':' :: ' ' :: ds'))
      (.conditional e yes no) where
  head := ht.head_append _
  tokens := by
    obtain ⟨ts, hts, hlex⟩ := ht.tokens
    obtain ⟨us, hus, hlexYes⟩ := hy.tokens
    obtain ⟨vs, hvs, hlexNo⟩ := hn.tokens
    refine ⟨_, .conditional hts hus hvs, fun rest hrest => ?_⟩
    have hquestion : ∀ cs, lex A (' ' :: '?' :: ' ' :: cs) = (lex A cs).map (.mark "?" :: ·) :=
      lex_operator (show isOperator "?" = true by decide)
    have hcolon : ∀ cs, lex A (' ' :: ':' :: ' ' :: cs) = (lex A cs).map (.mark ":" :: ·) :=
      lex_operator (show isOperator ":" = true by decide)
    simp only [List.cons_append, List.append_assoc]
    rw [hlex _ (ends_cons (by decide) (by decide) _), hquestion,
      hlexYes _ (ends_cons (by decide) (by decide) _), hcolon, hlexNo _ hrest]
    simp [Option.map_map, Function.comp_def]

theorem assign (hop : op ∈ assignmentOperators) (ht : Spells A 1 cs e) (hv : Spells A 14 ds e') :
    Spells A 14 (cs ++ ' ' :: (op.toList ++ ' ' :: ds)) (.assign op e e') where
  head := ht.head_append _
  tokens := by
    obtain ⟨ts, hts, hlex⟩ := ht.tokens
    obtain ⟨us, hus, hlex'⟩ := hv.tokens
    have hops : ∀ op ∈ assignmentOperators, isOperator op = true ∧ operatorToken op = .mark op := by
      decide
    refine ⟨_, .assign hop hts hus, fun rest hrest => ?_⟩
    simp only [List.cons_append, List.append_assoc]
    rw [hlex _ (ends_cons (by decide) (by decide) _), lex_operator (hops op hop).1,
      (hops op hop).2, hlex' _ hrest]
    simp [Option.map_map, Function.comp_def]

end Spells

/-- Texts with a comma and a blank between each two. -/
def listed : List (List Char) → List Char
  | [] => []
  | [cs] => cs
  | cs :: rest => cs ++ ',' :: ' ' :: listed rest

theorem lex_listed (parts : List (List Char × Expr)) (h : ∀ p ∈ parts, Spells A 14 p.1 p.2) :
    ∃ tokens : List (List Token × Expr), tokens.map (·.2) = parts.map (·.2) ∧
      (∀ q ∈ tokens, Derives 14 q.1 q.2) ∧ ∀ rest, Ends A rest →
        lex A (listed (parts.map (·.1)) ++ rest) =
          (lex A rest).map (commaSeparated (tokens.map (·.1)) ++ ·) := by
  induction parts with
  | nil => exact ⟨[], rfl, by simp, fun rest _ => by simp [listed, commaSeparated]⟩
  | cons p parts ih =>
    obtain ⟨ts, hts, hlex⟩ := (h p (by simp)).tokens
    obtain ⟨tokens, hsnd, hderives, hrest⟩ := ih fun q hq => h q (by simp [hq])
    refine ⟨(ts, p.2) :: tokens, by simp [hsnd], List.forall_mem_cons.2 ⟨hts, hderives⟩, ?_⟩
    intro rest hend
    cases parts with
    | nil =>
      obtain rfl : tokens = [] := by simpa using hsnd
      simpa [listed, commaSeparated] using hlex rest hend
    | cons q parts =>
      obtain ⟨t, tokens, rfl⟩ : ∃ t tokens', tokens = t :: tokens' := by
        cases tokens with
        | nil => simp at hsnd
        | cons t tokens => exact ⟨t, tokens, rfl⟩
      simp only [List.map_cons, listed, commaSeparated, List.append_assoc, List.cons_append]
      simp only [List.map_cons] at hrest
      rw [hlex _ (ends_cons (by decide) (by decide) _), lex_comma,
        lex_space A isSpace_blank, hrest rest hend]
      simp [Option.map_map, Function.comp_def]

theorem Spells.call (h : Spells A 1 cs e) (parts : List (List Char × Expr))
    (hparts : ∀ p ∈ parts, Spells A 14 p.1 p.2) :
    Spells A 1 (cs ++ '(' :: (listed (parts.map (·.1)) ++ [')'])) (.call e (parts.map (·.2))) where
  head := h.head_append _
  tokens := by
    obtain ⟨ts, hts, hlex⟩ := h.tokens
    obtain ⟨tokens, hsnd, hderives, hlisted⟩ := lex_listed parts hparts
    rw [← hsnd]
    refine ⟨_, .call tokens hts hderives, fun rest hrest => ?_⟩
    simp only [List.cons_append, List.append_assoc, List.nil_append]
    rw [hlex _ (ends_cons (by decide) (by decide) _), lex_leftParens,
      hlisted _ (ends_cons (by decide) (by decide) _), lex_rightParens]
    simp [Option.map_map, Function.comp_def]

end ObjectiveJ.Script
