import ObjectiveJ.Generate.Declaration
import ObjectiveJ.Generate.Expression
import ObjectiveJ.Proofs.Code.Brackets

/-!
# Texts without brackets

The names, types and texts of a program stand in its code as they are, or as messages show them. If
no text in a value has a bracket, then the brackets of the value as it is shown are nested: a list,
an object or a node closes what it opens.
-/

namespace ObjectiveJ

variable {v : Value} {c : Char}

namespace Text

/-- A text without brackets. -/
def IsClear (cs : List Char) : Prop := ∀ c ∈ cs, isBracket c = false

instance (cs : List Char) : Decidable (IsClear cs) := List.decidableBAll (isBracket · = false) cs

/-- A text whose brackets are nested wherever it stands. -/
def Nests (s : String) : Prop := SameBrackets s.toList []

variable {cs ds : List Char} {s r : String}

theorem IsClear.append (h : IsClear cs) (h' : IsClear ds) : IsClear (cs ++ ds) :=
  List.forall_mem_append.2 ⟨h, h'⟩

theorem IsClear.nests (h : IsClear s.toList) : Nests s := sameBrackets_nil h

theorem Nests.append (h : Nests s) (h' : Nests r) : Nests (s ++ r) := by
  rw [Nests, String.toList_append]
  exact SameBrackets.append h h'

theorem Nests.of_residue (h : residue s.toList = []) : Nests s := SameBrackets.of_residue h

theorem SameBrackets.texts {x y : String} (hx : SameBrackets x.toList cs)
    (hy : SameBrackets y.toList ds) : SameBrackets (x ++ y).toList (cs ++ ds) := by
  rw [String.toList_append]
  exact hx.append hy

theorem Nests.around {o c : String} (h : Nests s) :
    SameBrackets (o ++ s ++ c).toList (o.toList ++ [] ++ c.toList) :=
  ((SameBrackets.refl _).texts h).texts (.refl _)

theorem nests_comma : Nests ", " := .of_residue rfl

theorem Nests.between {o c : String} (h : Nests s) (hfit : Nests (o ++ c)) :
    Nests (o ++ s ++ c) := by
  rw [Nests, String.toList_append] at hfit
  rw [Nests, String.toList_append, String.toList_append]
  exact (((SameBrackets.refl o.toList).append_nil h).append (.refl c.toList)).trans hfit

theorem Nests.intercalate {sep : String} (hsep : Nests sep) {texts : List String}
    (h : ∀ s ∈ texts, Nests s) : Nests (sep.intercalate texts) := by
  induction texts with
  | nil => exact .refl []
  | cons s rest ih =>
    have hrest := ih fun r hr => h r (.tail _ hr)
    cases rest with
    | nil => exact h s (.head _)
    | cons r rest =>
      rw [String.intercalate_cons_cons]
      exact ((h s (.head _)).append hsep).append hrest

theorem mem_brackets_of_isBracket (h : isBracket c = true) :
    c ∈ ['(', '[', '\x7b', ')', ']', '\x7d'] := by
  simp only [isBracket, isClosing, Bool.or_eq_true, decide_eq_true_eq] at h
  rcases h with h | (rfl | rfl) | rfl
  · unfold partner? at h
    split at h
    · decide
    · decide
    · decide
    · cases h
  all_goals decide

/-- Characters of a kind that no bracket has are no brackets. -/
theorem not_isBracket_of {p : Char → Bool}
    (hp : ['(', '[', '\x7b', ')', ']', '\x7d'].all (!p ·) = true) (hc : p c = true) :
    isBracket c = false := by
  cases hbracket : isBracket c with
  | false => rfl
  | true =>
    have hnot := List.all_eq_true.1 hp c (mem_brackets_of_isBracket hbracket)
    simp [hc] at hnot

theorem isClear_toDigits (n : Nat) : IsClear (Nat.toDigits 10 n) := fun _ hc =>
  not_isBracket_of (p := Char.isDigit) (by decide)
    (Nat.isDigit_of_mem_toDigits (by decide) (by decide) hc)

theorem not_isBracket_hexDigit {n : Nat} (h : n < 16) (upper : Bool) :
    isBracket (hexDigit n upper) = false := by
  have hall : ∀ n < 16, ∀ upper, isBracket (hexDigit n upper) = false := by decide
  exact hall n h upper

theorem isClear_replicate (hc : isBracket c = false) (n : Nat) :
    IsClear (List.replicate n c) := fun d hd => by
  rwa [(List.mem_replicate.1 hd).2]

theorem isClear_int (n : Int) : IsClear n.repr.toList := by
  cases n with
  | ofNat n =>
    change IsClear n.repr.toList
    rw [Nat.toList_repr]
    exact isClear_toDigits n
  | negSucc n =>
    change IsClear ("-" ++ (n + 1).repr).toList
    rw [String.toList_append, Nat.toList_repr]
    exact IsClear.append (by decide) (isClear_toDigits _)

end Text

/-! ### Numbers -/

namespace Decimal

open Text

theorem isClear_shortest (r : Rounded) : IsClear r.shortest.digits := by
  intro c hc
  have hmem := (List.dropWhile_sublist _).mem (List.mem_reverse.1 hc)
  exact isClear_toDigits _ c (List.mem_reverse.1 hmem)

variable {d : Digits}

theorem isClear_positional (h : IsClear d.digits) : IsClear d.positional := by
  unfold Digits.positional
  split
  · exact ((show IsClear ['0', '.'] by decide).append (isClear_replicate (by decide) _)).append h
  · have hpadded := h.append (isClear_replicate (c := '0') (by decide)
      (d.magnitude.toNat + 1 - d.digits.length))
    refine IsClear.append (fun c hc => hpadded c (List.mem_of_mem_take hc)) ?_
    refine List.forall_mem_cons.2 ⟨by decide, ?_⟩
    split
    · exact List.forall_mem_singleton.2 (by decide)
    · exact fun c hc => hpadded c (List.mem_of_mem_drop hc)

theorem isClear_scientific (n : Form) (h : IsClear d.digits) : IsClear (d.scientific n) := by
  unfold Digits.scientific
  have hexponent := (isClear_replicate (c := '0') (by decide)
    (n.exponentDigits - (Nat.toDigits 10 d.magnitude.natAbs).length)).append
      (isClear_toDigits d.magnitude.natAbs)
  refine IsClear.append ?_
    (List.forall_mem_cons.2 ⟨by decide, List.forall_mem_cons.2 ⟨?_, hexponent⟩⟩)
  · split
    · decide
    · rename_i c hdigits
      exact hdigits ▸ h
    · rename_i c rest _ hdigits
      rw [hdigits] at h
      obtain ⟨hc, hrest⟩ := List.forall_mem_cons.1 h
      exact List.forall_mem_cons.2 ⟨hc, List.forall_mem_cons.2 ⟨by decide, hrest⟩⟩
  · split <;> decide

theorem isClear_write (x : Float) : IsClear (write plain x).toList := by
  unfold write
  obtain ⟨negative, field, fraction⟩ := fields x
  have hsign : IsClear (if negative then "-" else "").toList := by cases negative <;> decide
  dsimp only
  split
  · split
    · rw [String.toList_append]
      exact hsign.append (by decide)
    · decide
  split
  · rw [String.toList_append]
    exact hsign.append (by decide)
  · rw [String.toList_append, String.toList_ofList, Digits.write]
    refine hsign.append ?_
    split
    · exact isClear_positional (isClear_shortest _)
    · exact isClear_scientific _ (isClear_shortest _)

end Decimal

/-! ### Quoted texts -/

namespace Json

open Text

theorem isClear_hexDigits (n places : Nat) : IsClear (hexDigits n places) := by
  induction places with
  | zero => exact List.forall_mem_nil _
  | succ places ih =>
    exact List.forall_mem_cons.2 ⟨not_isBracket_hexDigit (Nat.mod_lt _ (by decide)) _, ih⟩

theorem isClear_showChar {q : Char} (hc : isBracket c = false) : IsClear (showChar q c) := by
  have hcode (letter : Char) (hletter : isBracket letter = false) (places : Nat) :
      IsClear ('\\' :: letter :: hexDigits c.toNat places) :=
    List.forall_mem_cons.2 ⟨by decide, List.forall_mem_cons.2 ⟨hletter, isClear_hexDigits _ _⟩⟩
  unfold showChar
  dsimp only
  split
  · exact List.forall_mem_cons.2 ⟨by decide, List.forall_mem_singleton.2 hc⟩
  split
  · decide
  split
  · decide
  split
  · decide
  split
  · exact List.forall_mem_singleton.2 hc
  split
  · exact hcode 'x' (by decide) 2
  split
  · exact hcode 'u' (by decide) 4
  · exact hcode 'U' (by decide) 8

theorem isClear_showText {s : String} (h : IsClear s.toList) : IsClear (showText s).toList := by
  unfold showText
  dsimp only
  rw [String.toList_ofList]
  have hquote : isBracket (if '\'' ∈ s.toList ∧ '"' ∉ s.toList then '"' else '\'') = false := by
    split <;> decide
  refine IsClear.append (List.forall_mem_cons.2 ⟨hquote, fun c hc => ?_⟩)
    (List.forall_mem_singleton.2 hquote)
  obtain ⟨d, hd, hc⟩ := List.mem_flatMap.1 hc
  exact isClear_showChar (h d hd) c hc

theorem isClear_escapeUnit (n : Nat) : IsClear (escapeUnit n) := by
  have hdigit (m : Nat) : isBracket (hexDigit (m % 16) false) = false :=
    not_isBracket_hexDigit (Nat.mod_lt _ (by decide)) _
  intro c hc
  simp only [escapeUnit, List.mem_cons, List.not_mem_nil, or_false] at hc
  rcases hc with rfl | rfl | rfl | rfl | rfl | rfl
  · decide
  · decide
  all_goals exact hdigit _

theorem isClear_escapeChar (hc : isBracket c = false) : IsClear (escapeChar c) := by
  unfold escapeChar
  split
  iterate 7 decide
  dsimp only
  split
  · exact List.forall_mem_singleton.2 hc
  split
  · exact isClear_escapeUnit _
  · exact (isClear_escapeUnit _).append (isClear_escapeUnit _)

theorem isClear_quote {s : String} (h : IsClear s.toList) : IsClear (quote s).toList := by
  rw [quote, String.toList_ofList]
  refine IsClear.append (List.forall_mem_cons.2 ⟨by decide, fun c hc => ?_⟩) (by decide)
  obtain ⟨d, hd, hc⟩ := List.mem_flatMap.1 hc
  exact isClear_escapeChar (h d hd) c hc

/-! ### JSON values -/

mutual

/-- The texts in a JSON value. -/
def texts : Json → List String
  | .str s => [s]
  | .arr items => textsOfItems items
  | .obj members => textsOfMembers members
  | _ => []

def textsOfItems : List Json → List String
  | [] => []
  | item :: rest => item.texts ++ textsOfItems rest

def textsOfMembers : List (String × Json) → List String
  | [] => []
  | (key, value) :: rest => key :: (value.texts ++ textsOfMembers rest)

end

end Json

/-- Texts none of which has a bracket. -/
def AllClear (texts : List String) : Prop := ∀ s ∈ texts, Text.IsClear s.toList

theorem allClear_append {texts more : List String} :
    AllClear (texts ++ more) ↔ AllClear texts ∧ AllClear more := List.forall_mem_append

theorem allClear_cons {s : String} {texts : List String} :
    AllClear (s :: texts) ↔ Text.IsClear s.toList ∧ AllClear texts := List.forall_mem_cons

/-! ### Values as they are shown -/

/-- A property that texts without brackets have, and that is kept where texts are put together as in
a value that is shown. -/
structure Text.Shown (P : List Char → Prop) : Prop where
  clear : ∀ {cs}, IsClear cs → P cs
  before : ∀ {cs ds}, IsClear cs → P ds → P (cs ++ ds)
  after : ∀ {cs ds}, P cs → IsClear ds → P (cs ++ ds)
  join : ∀ {cs sep ds}, P cs → IsClear sep → sep ≠ [] → P ds → P (cs ++ sep ++ ds)
  between : ∀ {o c cs}, partner? o = some c → P cs → P ([o] ++ cs ++ [c])

theorem Text.shown_nests : Shown fun cs => SameBrackets cs [] where
  clear := sameBrackets_nil
  before h h' := (sameBrackets_nil h).append h'
  after h h' := h.append (sameBrackets_nil h')
  join h h' _ h'' := (h.append (sameBrackets_nil h')).append h''
  between ho h := (((SameBrackets.refl _).append_nil h).append (.refl _)).trans
    (sameBrackets_partners ho)

section Shown

open Text

variable {P : List Char → Prop} (hP : Shown P)

include hP

theorem Text.Shown.intercalate {texts : List String} (h : ∀ s ∈ texts, P s.toList) :
    P (", ".intercalate texts).toList := by
  induction texts with
  | nil => exact hP.clear (by decide)
  | cons s rest ih =>
    have hrest := ih fun r hr => h r (.tail _ hr)
    cases rest with
    | nil => exact h s (.head _)
    | cons r rest =>
      rw [String.intercalate_cons_cons, String.toList_append, String.toList_append]
      exact hP.join (h s (.head _)) (by decide) (by decide) hrest

namespace Json

omit hP

mutual

theorem shown_quoted (hP : Shown P) (j : Json) (h : AllClear j.texts) : P j.quoted.toList := by
  cases j with
  | null => exact hP.clear (by decide)
  | bool b => cases b <;> exact hP.clear (by decide)
  | int n => exact hP.clear (isClear_int n)
  | float x => exact hP.clear (Decimal.isClear_write x)
  | str s => exact hP.clear (isClear_showText (h s (by simp [texts])))
  | arr items =>
    rw [quoted, String.toList_append, String.toList_append]
    exact hP.between rfl (hP.intercalate (shown_quotedItems hP items (by rwa [texts] at h)))
  | obj members =>
    rw [quoted, String.toList_append, String.toList_append]
    exact hP.between rfl (hP.intercalate (shown_quotedMembers hP members (by rwa [texts] at h)))

theorem shown_quotedItems (hP : Shown P) (items : List Json) (h : AllClear (textsOfItems items)) :
    ∀ s ∈ quotedItems items, P s.toList := by
  cases items with
  | nil => exact List.forall_mem_nil _
  | cons item rest =>
    rw [textsOfItems, allClear_append] at h
    rw [quotedItems]
    exact List.forall_mem_cons.2 ⟨shown_quoted hP item h.1, shown_quotedItems hP rest h.2⟩

theorem shown_quotedMembers (hP : Shown P) (members : List (String × Json))
    (h : AllClear (textsOfMembers members)) :
    ∀ s ∈ quotedMembers members, P s.toList := by
  cases members with
  | nil => exact List.forall_mem_nil _
  | cons member rest =>
    obtain ⟨key, value⟩ := member
    rw [textsOfMembers, allClear_cons, allClear_append] at h
    rw [quotedMembers]
    refine List.forall_mem_cons.2 ⟨?_, shown_quotedMembers hP rest h.2.2⟩
    rw [String.toList_append, String.toList_append]
    exact hP.join (hP.clear (isClear_showText h.1)) (by decide) (by decide)
      (shown_quoted hP value h.2.1)

end

theorem shown_display (hP : Shown P) (j : Json) (h : AllClear j.texts) : P j.display.toList := by
  cases j with
  | str s => exact hP.clear (h s (by simp [texts]))
  | null | bool | int | float | arr | obj => exact shown_quoted hP _ h

end Json

end Shown

/-! ### Values -/

mutual

/-- The texts in a value, with the names of fields. -/
def Value.texts : Value → List String
  | .data j => j.texts
  | .list items => textsOfItems items
  | .tuple items => textsOfItems items
  | .location l => l.texts
  | .tree t => t.texts
  | .accessors property getter setter readonly readwrite copy =>
    property.texts ++ (getter.texts ++ (setter.texts ++ (readonly.texts ++ (readwrite.texts ++
      copy.texts))))

def Location.texts : Location → List String
  | ⟨file, line, column⟩ => file.texts ++ (line.texts ++ column.texts)

def Tree.texts : Tree → List String
  | ⟨_, _, fields, _⟩ => textsOfFields fields

def textsOfItems : List Value → List String
  | [] => []
  | item :: rest => item.texts ++ textsOfItems rest

def textsOfFields : List (String × Value) → List String
  | [] => []
  | (name, value) :: rest => name :: (value.texts ++ textsOfFields rest)

end

/-- No text in a value has a bracket. -/
def Value.Clear (v : Value) : Prop := AllClear v.texts

open Text

theorem NodeType.isClear_title (type : NodeType) : IsClear type.title.toList := by
  cases type <;> decide +kernel

theorem Value.quoted_accessors (property getter setter readonly readwrite copy : Value) :
    (Value.accessors property getter setter readonly readwrite copy).quoted =
      "AccessorSpec(property=" ++ property.quoted ++ ", getter=" ++ getter.quoted ++ ", setter=" ++
        setter.quoted ++ ", readonly=" ++ readonly.quoted ++ ", readwrite=" ++ readwrite.quoted ++
        ", copy=" ++ copy.quoted ++ ")" := rfl

theorem quotedItems_cons (item : Value) (rest : List Value) :
    quotedItems (item :: rest) = item.quoted :: quotedItems rest := rfl

theorem quotedFields_cons (name : String) (value : Value) (rest : List (String × Value)) :
    quotedFields ((name, value) :: rest) = (name ++ "=" ++ value.quoted) :: quotedFields rest := rfl

theorem Location.quoted_mk (file line column : Value) : (Location.mk file line column).quoted =
    "SourceLocation(filename=" ++ file.quoted ++ ", line=" ++ line.quoted ++ ", column=" ++
      column.quoted ++ ")" := rfl

theorem Tree.quoted_mk (type : NodeType) (span : Span) (fields : List (String × Value))
    (number : Nat) : (Tree.mk type span fields number).quoted =
      type.title ++ "(" ++ ", ".intercalate (quotedFields fields) ++ ")" := rfl

section Shown

variable {P : List Char → Prop} (hP : Shown P)

include hP

theorem Text.Shown.label {label r x : String} (hr : P r.toList) (hlabel : IsClear label.toList)
    (hne : label.toList ≠ []) (hx : P x.toList) : P (r ++ label ++ x).toList := by
  rw [String.toList_append, String.toList_append]
  exact hP.join hr hlabel hne hx

omit hP

mutual

theorem Value.shown_quoted (hP : Shown P) (v : Value) (h : v.Clear) : P v.quoted.toList := by
  cases v with
  | data j => exact j.shown_quoted hP h
  | list items =>
    change P ("[" ++ ", ".intercalate (quotedItems items) ++ "]").toList
    rw [String.toList_append, String.toList_append]
    exact hP.between rfl (hP.intercalate (shown_quotedItems hP items h))
  | tuple items =>
    change P ("(" ++ ", ".intercalate (quotedItems items) ++
      if items.length = 1 then ",)" else ")").toList
    have hinside := hP.intercalate (shown_quotedItems hP items h)
    rw [String.toList_append, String.toList_append]
    split
    · have hcomma : IsClear [','] := by decide
      have hall := hP.between (o := '(') rfl (hP.after hinside hcomma)
      rwa [List.append_assoc, List.append_assoc] at hall
    · exact hP.between rfl hinside
  | location l => exact l.shown_quoted hP h
  | tree t => exact t.shown_quoted hP h
  | accessors property getter setter readonly readwrite copy =>
    simp only [Value.Clear, Value.texts, allClear_append] at h
    obtain ⟨hproperty, hgetter, hsetter, hreadonly, hreadwrite, hcopy⟩ := h
    have hinside : P ("property=" ++ property.quoted ++ ", getter=" ++ getter.quoted ++
        ", setter=" ++
        setter.quoted ++ ", readonly=" ++ readonly.quoted ++ ", readwrite=" ++ readwrite.quoted ++
        ", copy=" ++ copy.quoted).toList := by
      refine hP.label (hP.label
        (hP.label (hP.label (hP.label ?_ ?_ ?_ (getter.shown_quoted hP hgetter)) ?_ ?_
        (setter.shown_quoted hP hsetter)) ?_ ?_ (readonly.shown_quoted hP hreadonly)) ?_ ?_
        (readwrite.shown_quoted hP hreadwrite)) ?_ ?_ (copy.shown_quoted hP hcopy)
      · rw [String.toList_append]
        exact hP.before (by decide) (property.shown_quoted hP hproperty)
      all_goals decide
    have hname : IsClear "AccessorSpec".toList := by decide
    have hall := hP.before hname (hP.between (o := '(') rfl hinside)
    rw [Value.quoted_accessors]
    simpa [String.toList_append] using hall

theorem shown_quotedItems (hP : Shown P) (items : List Value)
    (h : AllClear (textsOfItems items)) :
    ∀ s ∈ quotedItems items, P s.toList := by
  cases items with
  | nil => exact List.forall_mem_nil _
  | cons item rest =>
    rw [textsOfItems, allClear_append] at h
    rw [quotedItems_cons]
    exact List.forall_mem_cons.2 ⟨item.shown_quoted hP h.1, shown_quotedItems hP rest h.2⟩

theorem Location.shown_quoted (hP : Shown P) (l : Location) (h : AllClear l.texts) :
    P l.quoted.toList := by
  obtain ⟨file, line, column⟩ := l
  simp only [Location.texts, allClear_append] at h
  have hinside : P ("filename=" ++ file.quoted ++ ", line=" ++ line.quoted ++ ", column=" ++
      column.quoted).toList := by
    refine hP.label (hP.label ?_ ?_ ?_ (line.shown_quoted hP h.2.1)) ?_ ?_
      (column.shown_quoted hP h.2.2)
    · rw [String.toList_append]
      exact hP.before (by decide) (file.shown_quoted hP h.1)
    all_goals decide
  have hname : IsClear "SourceLocation".toList := by decide
  have hall := hP.before hname (hP.between (o := '(') rfl hinside)
  rw [Location.quoted_mk]
  simpa [String.toList_append] using hall

theorem Tree.shown_quoted (hP : Shown P) (t : Tree) (h : AllClear t.texts) : P t.quoted.toList := by
  obtain ⟨type, span, fields, number⟩ := t
  rw [Tree.texts] at h
  have hall := hP.before type.isClear_title
    (hP.between (o := '(') rfl (hP.intercalate (shown_quotedFields hP fields h)))
  rw [Tree.quoted_mk]
  simpa [String.toList_append] using hall

theorem shown_quotedFields (hP : Shown P) (fields : List (String × Value))
    (h : AllClear (textsOfFields fields)) :
    ∀ s ∈ quotedFields fields, P s.toList := by
  cases fields with
  | nil => exact List.forall_mem_nil _
  | cons field rest =>
    obtain ⟨name, value⟩ := field
    rw [textsOfFields, allClear_cons, allClear_append] at h
    rw [quotedFields_cons]
    refine List.forall_mem_cons.2 ⟨?_, shown_quotedFields hP rest h.2.2⟩
    exact hP.label (hP.clear h.1) (by decide) (by decide) (value.shown_quoted hP h.2.1)

end

mutual

theorem Value.shown_display (hP : Shown P) (v : Value) (h : v.Clear) : P v.display.toList := by
  cases v with
  | data j => exact j.shown_display hP h
  | location l => exact l.shown_text hP h
  | list | tuple | tree | accessors => exact Value.shown_quoted hP _ h

theorem Location.shown_text (hP : Shown P) (l : Location) (h : AllClear l.texts) :
    P l.text.toList := by
  obtain ⟨file, line, column⟩ := l
  simp only [Location.texts, allClear_append] at h
  exact hP.label (hP.label (file.shown_display hP h.1) (by decide) (by decide)
    (line.shown_display hP h.2.1)) (by decide) (by decide) (column.shown_display hP h.2.2)

end

end Shown

theorem Value.nests_quoted (v : Value) (h : v.Clear) : Nests v.quoted :=
  v.shown_quoted shown_nests h

theorem Value.nests_display (v : Value) (h : v.Clear) : Nests v.display :=
  v.shown_display shown_nests h

/-! ### Parts -/

theorem allClear_lookup {fields : List (String × Value)} (h : AllClear (textsOfFields fields))
    {name : String} (hv : fields.lookup name = some v) : v.Clear := by
  induction fields with
  | nil => cases hv
  | cons field rest ih =>
    obtain ⟨key, value⟩ := field
    rw [textsOfFields, allClear_cons, allClear_append] at h
    rw [List.lookup_cons] at hv
    split at hv
    · cases hv
      exact h.2.1
    · exact ih h.2.2 hv

theorem Tree.clear_get? {t : Tree} {name : String} (h : (Value.tree t).Clear)
    (hv : t.get? name = some v) : v.Clear := by
  obtain ⟨type, span, fields, number⟩ := t
  rw [Value.Clear, Value.texts, Tree.texts] at h
  exact allClear_lookup h hv

theorem Value.clear_part? {w : Value} {name : String} (h : v.Clear) (hw : v.part? name = some w) :
    w.Clear := by
  cases v with
  | tree t => exact t.clear_get? h hw
  | accessors property getter setter readonly readwrite copy =>
    simp only [Value.Clear, Value.texts, allClear_append] at h
    obtain ⟨hproperty, hgetter, hsetter, hreadonly, hreadwrite, hcopy⟩ := h
    obtain ⟨before, after, heq, _⟩ := List.lookup_eq_some_iff.1 hw
    have hmem : (name, w) ∈ before ++ (name, w) :: after := by simp
    rw [← heq] at hmem
    simp only [List.mem_cons, Prod.mk.injEq, List.not_mem_nil, or_false] at hmem
    rcases hmem with ⟨_, rfl⟩ | ⟨_, rfl⟩ | ⟨_, rfl⟩ | ⟨_, rfl⟩ | ⟨_, rfl⟩ | ⟨_, rfl⟩ <;> assumption
  | data | list | tuple | location => cases hw

theorem allClear_mem {items : List Value} (h : AllClear (textsOfItems items)) (hv : v ∈ items) :
    v.Clear := by
  induction items with
  | nil => cases hv
  | cons item rest ih =>
    rw [textsOfItems, allClear_append] at h
    rcases List.mem_cons.1 hv with rfl | hv
    · exact h.1
    · exact ih h.2 hv

theorem allClear_textsOfItems {items : List Value} (h : ∀ v ∈ items, v.Clear) :
    AllClear (textsOfItems items) := by
  induction items with
  | nil =>
    rw [textsOfItems]
    exact List.forall_mem_nil _
  | cons item rest ih =>
    rw [textsOfItems, allClear_append]
    exact ⟨h item (.head _), ih fun v hv => h v (.tail _ hv)⟩

mutual

theorem Value.texts_ofJson (j : Json) : (Value.ofJson j).texts = j.texts := by
  cases j with
  | arr items =>
    rw [Value.ofJson, Value.texts, Json.texts]
    exact textsOfItems_ofItems items
  | null | bool | int | float | str | obj => rw [Value.ofJson, Value.texts]; nofun

theorem textsOfItems_ofItems (items : List Json) :
    textsOfItems (Value.ofItems items) = Json.textsOfItems items := by
  cases items with
  | nil => rw [Value.ofItems, textsOfItems, Json.textsOfItems]
  | cons item rest =>
    rw [Value.ofItems, textsOfItems, Json.textsOfItems, Value.texts_ofJson item,
      textsOfItems_ofItems rest]

end

theorem Json.allClear_items? {j : Json} {items : List Json} (h : AllClear j.texts)
    (hitems : j.items? = some items) : AllClear (textsOfItems items) := by
  have hstrings : ∀ texts : List String, AllClear texts →
      AllClear (textsOfItems (texts.map .str)) := by
    intro texts htexts
    induction texts with
    | nil => exact List.forall_mem_nil _
    | cons s rest ih =>
      rw [allClear_cons] at htexts
      rw [List.map_cons, textsOfItems, texts, allClear_append]
      exact ⟨List.forall_mem_singleton.2 htexts.1, ih htexts.2⟩
  cases j with
  | arr items =>
    obtain rfl := Option.some.inj hitems
    rwa [texts] at h
  | str s =>
    obtain rfl := Option.some.inj hitems
    have hs : IsClear s.toList := h s (by simp [texts])
    have hchars := hstrings (s.toList.map String.singleton) fun r hr => by
      obtain ⟨c, hc, rfl⟩ := List.mem_map.1 hr
      rw [String.toList_singleton]
      exact List.forall_mem_singleton.2 (hs c hc)
    rwa [List.map_map] at hchars
  | obj members =>
    obtain rfl := Option.some.inj hitems
    rw [texts] at h
    have hnames := hstrings (members.map (·.1)) fun r hr => by
      obtain ⟨⟨name, value⟩, hmem, rfl⟩ := List.mem_map.1 hr
      clear hstrings hitems hr
      induction members with
      | nil => cases hmem
      | cons member rest ih =>
        obtain ⟨key, other⟩ := member
        rw [textsOfMembers, allClear_cons, allClear_append] at h
        rcases List.mem_cons.1 hmem with heq | hmem
        · obtain ⟨rfl, rfl⟩ := Prod.mk.inj heq
          exact h.1
        · exact ih h.2.2 hmem
    rwa [List.map_map] at hnames
  | null | bool | int | float => cases hitems

theorem Value.clear_items? {items : List Value} (h : v.Clear) (hitems : v.items? = some items) :
    ∀ w ∈ items, w.Clear := by
  cases v with
  | list ws | tuple ws =>
    cases hitems
    rw [Value.Clear, Value.texts] at h
    exact fun w hw => allClear_mem h hw
  | data j =>
    obtain ⟨js, hjs, rfl⟩ := Option.map_eq_some_iff.1 hitems
    rw [Value.Clear, Value.texts] at h
    refine fun w hw => allClear_mem ?_ hw
    rw [textsOfItems_ofItems]
    exact Json.allClear_items? h hjs
  | location | tree | accessors => cases hitems

theorem Value.clear_str {s : String} : (Value.str s).Clear ↔ IsClear s.toList := by
  rw [Value.Clear, Value.texts, Json.texts]
  exact List.forall_mem_singleton

theorem Value.clear_text? {s : String} (h : v.Clear) (hs : v.text? = some s) :
    IsClear s.toList := by
  unfold Value.text? at hs
  split at hs
  · cases hs
    exact Value.clear_str.1 h
  · cases hs

end ObjectiveJ
