import Mathlib.Data.List.Chain
import Mathlib.Tactic.FinCases
import ObjectiveJ.Proofs.Code.Clear

/-!
# Texts of declarations

The texts of the code of classes and methods that do not come from the walk of a part. They are put
together from names, so their brackets nest where no name holds a bracket.

The body of a setter that stores a copy is made by replacing the call in it. The call ends with the
parenthesis that closes the function and the one that opens the arguments, and a name never shows
these two next to each other, so there is nothing else to replace.
-/

namespace ObjectiveJ

open Text

variable {cs ds : List Char} {s : String}

/-! ### Calls -/

/-- No parenthesis opens right after one that closes. -/
def Text.NoCall (cs : List Char) : Prop := cs.IsChain fun a b => ¬(a = ')' ∧ b = '(')

instance (cs : List Char) : Decidable (NoCall cs) := inferInstanceAs (Decidable (List.IsChain _ cs))

theorem Text.noCall_append : NoCall (cs ++ ds) ↔ NoCall cs ∧ NoCall ds ∧
    ∀ a ∈ cs.getLast?, ∀ b ∈ ds.head?, ¬(a = ')' ∧ b = '(') := List.isChain_append

theorem Text.IsClear.noCall (h : IsClear cs) : NoCall cs := by
  refine List.isChain_iff_forall_rel_of_append_cons_cons.2 ?_
  rintro a b before after rfl ⟨rfl, -⟩
  exact absurd (h ')' (by simp)) (by decide)

theorem Text.NoCall.append_of_head (h : NoCall cs) (h' : NoCall ds)
    (hhead : ds.head? ≠ some '(') : NoCall (cs ++ ds) :=
  noCall_append.2 ⟨h, h', fun _ _ _ hb hab => hhead (hab.2 ▸ hb)⟩

theorem Text.NoCall.append_of_last (h : NoCall cs) (h' : NoCall ds)
    (hlast : cs.getLast? ≠ some ')') : NoCall (cs ++ ds) :=
  noCall_append.2 ⟨h, h', fun _ ha _ _ hab => hlast (hab.1 ▸ ha)⟩

theorem Text.IsClear.head?_ne (h : IsClear cs) : cs.head? ≠ some '(' :=
  fun hhead => absurd (h _ (List.mem_of_head? hhead)) (by decide)

theorem Text.IsClear.getLast?_ne (h : IsClear cs) : cs.getLast? ≠ some ')' :=
  fun hlast => absurd (h _ (List.mem_of_getLast? hlast)) (by decide)

theorem Text.shown_noCall : Shown NoCall where
  clear := IsClear.noCall
  before hcs hds := hcs.noCall.append_of_last hds hcs.getLast?_ne
  after hcs hds := hcs.append_of_head hds.noCall hds.head?_ne
  join hcs hsep hne hds := (hcs.append_of_head hsep.noCall hsep.head?_ne).append_of_last hds
    (by rw [List.getLast?_append_of_ne_nil _ hne]; exact hsep.getLast?_ne)
  between := by
    intro o c cs hpartner hcs
    refine (NoCall.append_of_last (List.isChain_singleton o) hcs ?_).append_of_head
      (List.isChain_singleton c) ?_
    · intro hlast
      obtain rfl : o = ')' := by simpa using hlast
      cases hpartner
    · intro hhead
      obtain rfl : c = '(' := by simpa using hhead
      exact absurd hpartner (by unfold partner?; split <;> decide)

namespace Text

variable {before : List Char}

variable {pattern text : List Char}

theorem not_noCall_of_isPrefix (h : before ++ [')', '('] <+: cs) : ¬NoCall cs := by
  rintro hcs
  obtain ⟨after, rfl⟩ := h
  have hpair := (noCall_append.1 (noCall_append.1 hcs).1).2.1
  exact (List.isChain_pair.1 hpair) ⟨rfl, rfl⟩

theorem replaceFrom_skip (k : Nat) (cs ds : List Char) (hk : cs.length = k) :
    replaceFrom pattern text k (cs ++ ds) = replaceFrom pattern text 0 ds := by
  induction cs generalizing k with
  | nil => subst hk; rfl
  | cons c cs ih =>
    subst hk
    exact ih _ rfl

/-- A text without calls has no pattern that ends with one. -/
theorem replaceFrom_of_noCall (h : NoCall cs) :
    replaceFrom (before ++ [')', '(']) text 0 cs = cs := by
  induction cs with
  | nil => rfl
  | cons c cs ih =>
    rw [replaceFrom, if_neg, ih h.tail]
    exact fun hprefix => not_noCall_of_isPrefix (List.isPrefixOf_iff_prefix.1 hprefix) h

/-- The only occurrence of a pattern that ends with a call. -/
theorem replace_of_noCall (hcs : NoCall (cs ++ before ++ [')'])) (hds : NoCall ds) :
    replace (before ++ [')', '(']) text (cs ++ (before ++ [')', '('] ++ ds)) =
        cs ++ (text ++ ds) := by
  rw [replace]
  induction cs with
  | nil =>
    obtain ⟨first, rest, hpattern⟩ : ∃ first rest, before ++ [')', '('] = first :: rest :=
      List.exists_cons_of_ne_nil (by simp)
    have hskip : replaceFrom (before ++ [')', '(']) text rest.length (rest ++ ds) =
        replaceFrom (before ++ [')', '(']) text 0 ds := replaceFrom_skip rest.length rest ds rfl
    rw [replaceFrom_of_noCall hds] at hskip
    rw [List.nil_append, hpattern] at *
    rw [List.cons_append, replaceFrom, if_pos]
    · exact congrArg _ hskip
    · exact List.isPrefixOf_iff_prefix.2 (List.prefix_append (first :: rest) ds)
  | cons c cs ih =>
    rw [List.cons_append, List.cons_append, replaceFrom, if_neg, ih hcs.tail]
    intro hprefix
    -- the pattern would end before the parenthesis that opens the arguments
    have hshort : before ++ [')', '('] <+: c :: cs ++ before ++ [')'] := by
      have hstart : c :: cs ++ before ++ [')'] <+: c :: (cs ++ (before ++ [')', '('] ++ ds)) :=
        ⟨'(' :: ds, by simp⟩
      refine List.prefix_of_prefix_length_le (List.isPrefixOf_iff_prefix.1 hprefix) hstart ?_
      simp only [List.length_append, List.length_cons, List.length_nil]
      omega
    exact not_noCall_of_isPrefix hshort hcs

end Text

/-! ### Capitals -/

namespace Text

theorem isBracket_ofNat {n : Nat} (h : n ∉ [40, 41, 91, 93, 123, 125]) :
    isBracket (Char.ofNat n) = false := by
  by_contra hbracket
  have hmem := mem_brackets_of_isBracket (Bool.eq_true_of_not_eq_false hbracket)
  by_cases hvalid : n.isValidChar
  · have hn : (Char.ofNat n).toNat = n := by
      rw [Char.ofNat, dif_pos hvalid]
      rfl
    refine h ?_
    rw [← hn]
    revert hmem
    generalize Char.ofNat n = c
    intro hmem
    fin_cases hmem <;> decide
  · have hzero : Char.ofNat n = '\x00' := by
      rw [Char.ofNat, dif_neg hvalid]
      rfl
    rw [hzero] at hmem
    exact absurd hmem (by decide)

/-- The images of a run lie between letters, or after all brackets. -/
theorem upperRuns_avoid : ∀ run ∈ upperRuns, 126 ≤ run.2.2.2 ∨
    65 ≤ run.2.2.2 ∧ run.2.2.2 + (run.2.1 - run.1) ≤ 90 := by decide +kernel

theorem upperExpansions_avoid : ∀ entry ∈ upperExpansions, ∀ code ∈ entry.2,
    code ∉ [40, 41, 91, 93, 123, 125] := by decide +kernel

theorem isClear_upperChar {c : Char} (hc : isBracket c = false) : IsClear (upperChar c) := by
  unfold upperChar mapCase
  split
  · rename_i codes hcodes
    intro d hd
    obtain ⟨code, hcode, rfl⟩ := List.mem_map.1 hd
    obtain ⟨entry, hentry, -, rfl⟩ : ∃ entry ∈ upperExpansions, entry.1 = c.toNat ∧
        entry.2 = codes :=
      List.lookup_eq_some_iff.1 hcodes |> fun ⟨before, after, hall, _⟩ =>
        ⟨(c.toNat, codes), by simp [hall], rfl, rfl⟩
    exact isBracket_ofNat (upperExpansions_avoid entry hentry code hcode)
  · split
    · rename_i image himage
      obtain ⟨⟨first, last, step, image⟩, hrun, rfl⟩ := Option.map_eq_some_iff.1 himage
      have hin := List.find?_some hrun
      have havoid := upperRuns_avoid _ (List.mem_of_find?_eq_some hrun)
      simp only [Bool.and_eq_true, decide_eq_true_eq] at hin havoid
      refine fun d hd => (List.mem_singleton.1 hd) ▸ isBracket_ofNat ?_
      simp only [List.mem_cons, List.not_mem_nil, or_false]
      omega
    · exact fun d hd => (List.mem_singleton.1 hd) ▸ hc

theorem isClear_capitalize (h : IsClear s.toList) : IsClear (capitalize s).toList := by
  unfold capitalize
  split
  · decide
  · rename_i c rest hs
    rw [hs] at h
    rw [String.toList_ofList]
    exact (isClear_upperChar (h c (.head _))).append fun d hd => h d (.tail _ hd)

end Text

/-! ### Selectors of accessors -/

namespace Accessors

variable {clause ivar : Value}

theorem isClear_stripColon (h : IsClear s.toList) : IsClear (stripColon s).toList := by
  unfold stripColon
  dsimp only
  split
  · rw [String.toList_ofList]
    exact fun c hc => h c (List.dropLast_subset _ hc)
  · exact h

theorem clear_strip? {v w : Value} (h : v.Clear) (hw : strip? v = some w) : w.Clear := by
  unfold strip? at hw
  split at hw
  · cases hw
    exact Value.clear_str.2 (isClear_stripColon (Value.clear_str.1 h))
  · obtain ⟨n, -, hw⟩ := Option.bind_eq_some_iff.1 hw
    split at hw
    · cases hw
      exact h
    · cases hw

theorem clear_given? {part : String} {name : Value} (h : clause.Clear)
    (hname : given? clause part = some (some name)) : name.Clear := by
  obtain ⟨identifier, hidentifier, hname⟩ := Option.bind_eq_some_iff.1 hname
  split at hname
  · cases hname
  · obtain ⟨given, hgiven, hname⟩ := Option.bind_eq_some_iff.1 hname
    cases hname
    exact Value.clear_part? (Value.clear_part? h hidentifier) hgiven

theorem clear_getter? {selector : Value} (hclause : clause.Clear) (hivar : ivar.Clear)
    (h : getter? clause ivar = some selector) : selector.Clear := by
  obtain ⟨given, hgiven, h⟩ := Option.bind_eq_some_iff.1 h
  cases given with
  | some name => exact clear_strip? (clear_given? hclause hgiven) (by simpa using h)
  | none =>
    obtain ⟨property, hproperty, h⟩ := Option.bind_eq_some_iff.1 h
    cases property with
    | some name => cases h; exact clear_given? hclause hproperty
    | none => cases h; exact hivar

theorem isClear_setterOf (h : IsClear s.toList) : IsClear (setterOf s).toList := by
  unfold setterOf
  split
  · rename_i c rest hs
    rw [hs] at h
    simp only [String.toList_append]
    refine (IsClear.append (by decide) (isClear_capitalize ?_)).append (by decide)
    rw [String.toList_ofList]
    exact fun d hd => h d (.tail _ hd)
  · simp only [String.toList_append]
    exact (IsClear.append (by decide) (isClear_capitalize h)).append (by decide)

theorem isClear_setter? {selector : String} (hclause : clause.Clear) (hivar : ivar.Clear)
    (h : setter? clause ivar = some selector) : IsClear selector.toList := by
  obtain ⟨given, hgiven, h⟩ := Option.bind_eq_some_iff.1 h
  cases given with
  | some name =>
    obtain ⟨text, htext, h⟩ := Option.bind_eq_some_iff.1 h
    cases h
    rw [String.toList_append]
    exact (isClear_stripColon (Value.clear_text? (clear_given? hclause hgiven) htext)).append
      (by decide)
  | none =>
    obtain ⟨property, hproperty, h⟩ := Option.bind_eq_some_iff.1 h
    cases property with
    | some name =>
      obtain ⟨text, htext, h⟩ := Option.bind_eq_some_iff.1 h
      cases h
      rw [String.toList_append, String.toList_append]
      exact (IsClear.append (by decide) (isClear_capitalize (Value.clear_text?
        (clear_given? hclause hproperty) htext))).append (by decide)
    | none =>
      obtain ⟨text, htext, h⟩ := Option.bind_eq_some_iff.1 h
      cases h
      exact isClear_setterOf (Value.clear_text? hivar htext)

theorem nests_attribute? {part : String} {f : Value → Option Value} {texts : List String}
    (hclause : clause.Clear) (hpart : Nests (part ++ "="))
    (hf : ∀ v w, v.Clear → f v = some w → w.Clear) (h : attribute? clause part f = some texts) :
    ∀ s ∈ texts, Nests s := by
  obtain ⟨given, hgiven, h⟩ := Option.bind_eq_some_iff.1 h
  cases given with
  | none => cases h; exact List.forall_mem_nil _
  | some name =>
    obtain ⟨shown, hshown, h⟩ := Option.bind_eq_some_iff.1 h
    cases h
    rw [List.forall_mem_singleton]
    exact hpart.append (shown.nests_display (hf _ _ (clear_given? hclause hgiven) hshown))

theorem nests_attributes {flag : List String} {attributes : String} (hclause : clause.Clear)
    (hflag : ∀ s ∈ flag, Nests s)
    (h : (do
      let all := flag ++ (← attribute? clause "property" some) ++
        (← attribute? clause "getter" some) ++ (← attribute? clause "setter" strip?)
      return if all.isEmpty then "" else "(" ++ ", ".intercalate all ++ ")") = some attributes) :
    Nests attributes := by
  obtain ⟨property, hproperty, h⟩ := Option.bind_eq_some_iff.1 h
  obtain ⟨getter, hgetter, h⟩ := Option.bind_eq_some_iff.1 h
  obtain ⟨setter, hsetter, h⟩ := Option.bind_eq_some_iff.1 h
  have hsame : ∀ v w : Value, v.Clear → some v = some w → w.Clear :=
    fun _ _ hv h => Option.some.inj h ▸ hv
  have hall : ∀ s ∈ flag ++ property ++ getter ++ setter, Nests s := by
    refine List.forall_mem_append.2
      ⟨List.forall_mem_append.2 ⟨List.forall_mem_append.2 ⟨hflag, ?_⟩, ?_⟩, ?_⟩
    · exact nests_attribute? hclause (.of_residue rfl) hsame hproperty
    · exact nests_attribute? hclause (.of_residue rfl) hsame hgetter
    · exact nests_attribute? hclause (.of_residue rfl) (fun _ _ => clear_strip?) hsetter
  cases h
  split
  · exact .of_residue rfl
  · exact (Nests.intercalate nests_comma hall).between (.of_residue rfl)

theorem nests_attributes? {attributes : String} (hclause : clause.Clear)
    (h : attributes? clause = some attributes) : Nests attributes := by
  obtain ⟨readonly, -, h⟩ := Option.bind_eq_some_iff.1 h
  obtain ⟨copy, -, h⟩ := Option.bind_eq_some_iff.1 h
  have hword : ∀ word : String, residue word.toList = [] → ∀ s ∈ [word], Nests s :=
    fun word hword =>
    List.forall_mem_singleton.2 (.of_residue hword)
  split at h
  · exact nests_attributes hclause (hword "readonly" (by decide)) h
  · split at h
    · exact nests_attributes hclause (hword "copy" (by decide)) h
    · exact nests_attributes hclause (List.forall_mem_nil _) h

end Accessors

/-! ### Texts -/

namespace Declaration

variable {name : String}

theorem nests_quotedList {types : List Value} (h : ∀ v ∈ types, v.Clear) :
    Nests (quotedList types) := by
  refine Nests.intercalate nests_comma fun s hs => ?_
  obtain ⟨type, htype, rfl⟩ := List.mem_map.1 hs
  exact (type.nests_display (h type htype)).between (.of_residue rfl)

theorem sameBrackets_colons (cs : List Char) :
    SameBrackets (cs.map fun c => if c = ':' then '_' else c) cs := by
  induction cs with
  | nil => exact .refl _
  | cons c cs ih =>
    have hfirst : SameBrackets [if c = ':' then '_' else c] [c] := by
      split
      · rename_i hc
        subst hc
        exact .of_residue rfl
      · exact .refl _
    exact hfirst.append ih

theorem nests_functionName {className selector : String} (hclass : Nests className)
    (hselector : Nests selector) : Nests (functionName className selector) := by
  refine ((Nests.append (.of_residue rfl) hclass).append (.of_residue rfl)).append ?_
  rw [Nests, String.toList_ofList]
  exact (sameBrackets_colons _).trans hselector

theorem nests_protocolLookup {declare variableName : String} (hdeclare : Nests declare)
    (hvariable : Nests variableName) (hname : Nests name) :
    Nests (protocolLookup declare variableName name) := by
  exact .trans (((((((hdeclare.texts hvariable).texts (.refl _)).texts hname).texts (.refl _)).texts
    hvariable).texts (.refl _)).texts (hname.around))
    (.of_residue rfl)

/-- What stands before the call in the body of a setter that stores a copy. -/
def copyStart (name : String) : String :=
  "if (self." ++ name ++ " !== newValue)\n→→/* " ++ name ++ " = [newValue copy] */ self." ++ name ++
    " = newValue == null ? null : "

theorem noCall_copyStart (h : NoCall name.toList) (hcs : NoCall cs) :
    NoCall ((copyStart name).toList ++ cs) := by
  simp only [copyStart, String.toList_append, List.append_assoc]
  refine .append_of_last (by decide)
    (h.append_of_head (.append_of_last (by decide) (h.append_of_head
    (.append_of_last (by decide) (h.append_of_head (.append_of_last (by decide) hcs ?_) ?_) ?_) ?_)
      ?_) ?_) ?_
  all_goals simp

theorem copyBody_inline (h : NoCall name.toList) : copyBody name true =
    copyStart name ++ "(" ++ Message.dispatch true "newValue" "copy" 0 ++
      "newValue, \"copy\");" := by
  have hstart : NoCall ((copyStart name).toList ++
      "newValue.isa.method_msgSend[\"copy\"] || _objj_forward".toList ++ [')']) := by
    rw [List.append_assoc]
    exact noCall_copyStart h (by decide)
  have hend : NoCall "newValue, \"copy\");".toList := by decide
  have hreplace : replace ("newValue.isa.method_msgSend[\"copy\"] || _objj_forward".toList ++ [')',
      '('])
      ('(' :: (Message.dispatch true "newValue" "copy" 0).toList) _ =
        _ := replace_of_noCall hstart hend
  have hcall : "newValue.isa.method_msgSend[\"copy\"] || _objj_forward".toList ++ [')', '('] =
      (Message.dispatch true "newValue" "copy" 0).toList := by decide
  rw [← String.toList_inj]
  refine .trans ?_ (hreplace.trans ?_)
  · rw [hcall, copyBody, if_pos rfl, String.toList_ofList]
    refine congrArg _ ?_
    simp only [copyStart, String.toList_append, toString, List.append_assoc]
    rfl
  · simp [String.toList_append]

theorem nests_copyBody {name : Value} (h : name.Clear) (isInline : Bool) :
    Nests (copyBody name.display isInline) := by
  have hname := name.nests_display h
  cases isInline with
  | false =>
    exact .trans ((((hname.around).texts hname).texts (.refl _)).texts
      (((hname.around).texts (.refl _)).texts (.refl _)))
      (.of_residue rfl)
  | true =>
    rw [copyBody_inline (name.shown_display shown_noCall h), copyStart]
    exact .trans (((((((((hname.around).texts hname).texts (.refl _)).texts
      hname).texts (.refl _)).texts (.refl _)).texts (.refl _)).texts (.refl _)))
      (.of_residue rfl)

end Declaration

end ObjectiveJ
