import Mathlib.Tactic.IntervalCases
import ObjectiveJ.Compiler
import ObjectiveJ.Proofs.Format.Texts
import ObjectiveJ.Proofs.Layout.Shift

/-!
# What the bundled formats put between texts

Both bundled formats indent by blanks, and what they have for a hook is *spacing*: blanks, line
breaks and changes of the indentation by one level. Only what stands after a statement is a text,
and there both have the same (`Format.valueFor_after`). Spacing can always be carried out, and
writes nothing but blanks and line breaks (`Indenter.Blank.value`).

The indentation changes after an opening brace or bracket and before a closing one, and nowhere
else. What the closing one does undoes what the opening one has done (`Format.Tidy.paired`).
-/

namespace ObjectiveJ

/-- Blanks and line breaks. -/
def Text.isSpacing (c : Char) : Bool := c == ' ' || c == '\n'

theorem Text.join_cons_cons (sep : Char) (piece next : List Char) (rest : List (List Char)) :
    join sep (piece :: next :: rest) = piece ++ sep :: join sep (next :: rest) := rfl

namespace Indenter

/-- Whether a change of the indentation is by one level at most. -/
def Directive.isSmall (d : Directive) : Bool := d = .none || d = .by 1 || d = .by (-1)

/-- The indentation after a change by one level at most, with so many blanks to a level. -/
def Directive.moved (width : Nat) (n : Nat) : Directive → Nat
  | .by 1 => n + width
  | .by (-1) => n - width
  | _ => n

/-- What the lines of a value of a format say about the indentation. -/
def directives (cs : List Char) : List Directive :=
  (Text.split '\n' cs).map fun line => (directive line).2

/-- A value of a format that writes nothing but blanks and line breaks. -/
def isSpacing (cs : List Char) : Bool :=
  (Text.split '\n' cs).all fun line =>
    (directive line).1.all Text.isSpacing && (directive line).2.isSmall

/-- An indenter with so many blanks to a level. -/
structure Blank (width : Nat) (i : Indenter) : Prop where
  isSmall : width ≤ 4
  step : i.step = .text (List.replicate width ' ')
  indentation : ∃ n, i.indentation = List.replicate n ' '

/-- An indenter at so many blanks. -/
def atColumn (i : Indenter) (n : Nat) : Indenter := { i with indentation := List.replicate n ' ' }

@[simp] theorem length_atColumn (i : Indenter) (n : Nat) : (i.atColumn n).indentation.length = n :=
  List.length_replicate

namespace Blank

variable {w : Nat} {i : Indenter}

theorem eq_atColumn (h : i.Blank w) : i.atColumn i.indentation.length = i := by
  obtain ⟨n, hn⟩ := h.indentation
  obtain ⟨step, indentation⟩ := i
  obtain rfl := hn
  simp [atColumn]

theorem atColumn (h : i.Blank w) (n : Nat) : (i.atColumn n).Blank w := ⟨h.isSmall, h.step, n, rfl⟩

theorem all_indentation (h : i.Blank w) : i.indentation.all Text.isSpacing = true := by
  obtain ⟨n, hn⟩ := h.indentation
  simp [hn, Text.isSpacing]

theorem indent? (h : i.Blank w) :
    i.indent? (.int 1) = some (i.atColumn (i.indentation.length + w)) := by
  have htimes : i.step.times? (.int 1) = some (List.replicate w ' ') := by
    have hsmall := h.isSmall
    rw [h.step]
    interval_cases w <;> decide +kernel
  obtain ⟨n, hn⟩ := h.indentation
  simp [Indenter.indent?, htimes, hn, Indenter.atColumn]

theorem dedent? (h : i.Blank w) :
    i.dedent? (.int 1) = some (i.atColumn (i.indentation.length - w)) := by
  have hposition : Text.position i.indentation.length ((w : Int) * 1) =
      min w i.indentation.length := by
    have hnat : ¬ (w : Int) * 1 < 0 := by omega
    rw [Text.position, if_neg hnat]
    simp
  obtain ⟨n, hn⟩ := h.indentation
  simp only [Indenter.dedent?, h.step, IndentStep.length?, Json.whole?, Option.bind_eq_bind,
    Option.bind_some, Option.pure_def, List.length_replicate, Text.sliceFrom, hposition,
    Indenter.atColumn]
  simp only [hn, List.drop_replicate, List.length_replicate]
  congr 3
  omega

theorem shift? (h : i.Blank w) {d : Directive} (hd : d.isSmall = true) :
    i.shift? d = some (i.atColumn (d.moved w i.indentation.length)) := by
  simp only [Directive.isSmall, Bool.or_eq_true, decide_eq_true_eq] at hd
  rcases hd with (rfl | rfl) | rfl
  · exact congrArg some h.eq_atColumn.symm
  · exact h.indent?
  · exact h.dedent?

theorem line (h : i.Blank w) {text : List Char} (htext : text.all Text.isSpacing = true)
    (p : Prop) [Decidable p] :
    (if p then i.indentation ++ text else text).all Text.isSpacing = true := by
  split
  · rw [List.all_append, htext, h.all_indentation]
    rfl
  · exact htext

theorem valueLines (h : i.Blank w) {lines : List (List Char)}
    (hlines : ∀ line ∈ lines,
      (directive line).1.all Text.isSpacing = true ∧ (directive line).2.isSmall = true) :
    ∃ texts, i.valueLines lines = (i.atColumn ((lines.map fun line => (directive line).2).foldl
        (Directive.moved w) i.indentation.length), some texts) ∧
      ∀ text ∈ texts, text.all Text.isSpacing = true := by
  induction lines generalizing i with
  | nil =>
    refine ⟨[], ?_, by simp⟩
    rw [Indenter.valueLines, List.map_nil, List.foldl_nil, h.eq_atColumn]
  | cons line rest ih =>
    obtain ⟨htext, hsmall⟩ := hlines line (.head _)
    have hat := h.atColumn ((directive line).2.moved w i.indentation.length)
    obtain ⟨texts, hrest, hspacing⟩ := ih hat fun l hl => hlines l (.tail _ hl)
    simp only [Indenter.valueLines, h.shift? hsmall, hrest, Option.map_some, List.map_cons,
      List.foldl_cons, length_atColumn]
    refine ⟨_, rfl, fun text ht => ?_⟩
    rcases List.mem_cons.1 ht with rfl | ht
    · exact hat.line htext _
    · exact hspacing text ht

theorem all_join {pieces : List (List Char)}
    (h : ∀ piece ∈ pieces, piece.all Text.isSpacing = true) :
    (Text.join '\n' pieces).all Text.isSpacing = true := by
  induction pieces with
  | nil => rfl
  | cons piece rest ih =>
    have hpiece := h piece (.head _)
    have hrest := ih fun p hp => h p (.tail _ hp)
    cases rest with
    | nil => exact hpiece
    | cons next rest =>
      rw [Text.join_cons_cons, List.all_append, hpiece, List.all_cons, hrest]
      rfl

theorem value (h : i.Blank w) {cs : List Char} (hcs : isSpacing cs = true) :
    ∃ text, i.value cs =
        (i.atColumn ((directives cs).foldl (Directive.moved w) i.indentation.length), some text) ∧
      text.all Text.isSpacing = true := by
  simp only [isSpacing, List.all_eq_true, Bool.and_eq_true] at hcs
  unfold Indenter.value directives
  split
  · rename_i hsplit
    exact absurd hsplit (Text.split_ne_nil _ _)
  · rename_i first rest hsplit
    rw [hsplit] at hcs ⊢
    obtain ⟨htext, hsmall⟩ := hcs first (.head _)
    obtain ⟨texts, hrest, hspacing⟩ :=
      (h.atColumn ((directive first).2.moved w i.indentation.length)).valueLines fun l hl => by
        simpa using hcs l (.tail _ hl)
    refine ⟨Text.join '\n' ((directive first).1 :: texts), ?_, ?_⟩
    · simp only [h.shift? hsmall, hrest, Option.map_some, List.map_cons, List.foldl_cons,
        length_atColumn]
      rfl
    · refine all_join fun piece hpiece => ?_
      rcases List.mem_cons.1 hpiece with rfl | hpiece
      · simpa using htext
      · exact hspacing piece hpiece

end Blank

end Indenter

namespace Format

/-- What a format has under a key whatever surrounds the node; none if that depends on it. -/
def sure? (f : Format) (item key : String) : Option (List Char) :=
  match (f.own? item key).getD (f.global key) with
  | .null => some []
  | .str s => some s.toList
  | _ => none

/-- The changes of the indentation in a text. -/
def changes (cs : List Char) : List Indenter.Directive :=
  (Indenter.directives cs).filter (· ≠ .none)

/-- Whether the hook before the closing character undoes what the one after the opening character
does to the indentation. -/
def undoes (f : Format) (item : String) (e : Enclosure) : Bool :=
  match f.sure? item e.afterLeft, f.sure? item e.beforeRight with
  | some a, some b =>
    (changes a = [] && changes b = []) || (changes a = [.by 1] && changes b = [.by (-1)])
  | _, _ => false

/-- Whether a format has only spacing, and changes the indentation only inside of braces and
brackets. -/
def isTidy (f : Format) : Bool :=
  f.allTextsUnder (fun key => key ≠ "after" ∧ key ∉ settingKeys) Indenter.isSpacing &&
  f.allTextsUnder (· = "after") isPlainText &&
  f.allTextsUnder (fun key => key ∉ shiftKeys ∧ key ∉ settingKeys) (changes · = []) &&
  typeMap.all (fun entry => [Enclosure.braces, .brackets].all (f.undoes entry.2)) &&
  (f.global "after").agrees .null && (f.global "single-line-array-limit").agrees (.int 4) &&
  (f.global "indent-string").agrees (.str " ")

/-- One of the two bundled formats. -/
def IsBundled (f : Format) : Prop := f = bundled "cappuccino" ∨ f = bundled "compact"

theorem bundled_tidy :
    ((bundled "cappuccino").isTidy && (bundled "compact").isTidy &&
      ((bundled "cappuccino").groups.entries = (bundled "compact").groups.entries) &&
      typeMap.all (fun entry =>
        (bundled "cappuccino").agreesAt (bundled "compact") "after" entry.2) &&
      ((bundled "cappuccino").global "indent-width").agrees (.int 4) &&
      ((bundled "compact").global "indent-width").agrees (.int 0)) = true := by
  decide +kernel

variable {f : Format} {ancestry : Option Ancestry} {type key : String}

structure Tidy (f : Format) : Prop where
  spacing : f.allTextsUnder (fun key => key ≠ "after" ∧ key ∉ settingKeys) Indenter.isSpacing = true
  plain : f.allTextsUnder (· = "after") isPlainText = true
  level : f.allTextsUnder (fun key => key ∉ shiftKeys ∧ key ∉ settingKeys) (changes · = []) = true
  undone : ∀ entry ∈ typeMap, ∀ e, f.undoes entry.2 e = true
  after : f.global "after" = .null
  limit : f.global "single-line-array-limit" = .int 4
  indentString : f.global "indent-string" = .str " "

theorem IsBundled.tidy (hf : f.IsBundled) : f.Tidy := by
  have hfacts := bundled_tidy
  simp only [Bool.and_eq_true] at hfacts
  have htidy : f.isTidy = true := by
    rcases hf with rfl | rfl
    · exact hfacts.1.1.1.1.1
    · exact hfacts.1.1.1.1.2
  simp only [isTidy, Bool.and_eq_true, List.all_eq_true] at htidy
  obtain ⟨⟨⟨⟨⟨⟨hspacing, hplain⟩, hlevel⟩, hundone⟩, hafter⟩, hlimit⟩, hstring⟩ := htidy
  have hundone (entry : String × String) (h : entry ∈ typeMap) (e : Enclosure) :
      f.undoes entry.2 e = true := hundone entry h e (by cases e <;> simp)
  exact ⟨hspacing, hplain, hlevel, hundone, Json.eq_of_agrees hafter, Json.eq_of_agrees hlimit,
    Json.eq_of_agrees hstring⟩

/-- What is written for a key. -/
def written (f : Format) (ancestry : Option Ancestry) (type key : String) : List Char :=
  ((f.valueFor ancestry type key).str?.getD "").toList

theorem written_of_isText {p : List Char → Bool} (hp : p [] = true)
    (h : (f.valueFor ancestry type key).IsText p) : p (f.written ancestry type key) = true := by
  unfold written
  rcases h with hv | ⟨s, hv, hs⟩
  · rw [hv]
    exact hp
  · rw [hv]
    exact hs

theorem Tidy.isSpacing_written (h : f.Tidy) (hafter : key ≠ "after") (hkey : key ∉ settingKeys) :
    Indenter.isSpacing (f.written ancestry type key) = true :=
  written_of_isText rfl
    (allTexts_valueFor h.spacing (by simpa using ⟨hafter, hkey⟩) ancestry type)

/-- Outside of braces and brackets the indentation stays. -/
theorem Tidy.changes_written (h : f.Tidy) (hshift : key ∉ shiftKeys) (hkey : key ∉ settingKeys) :
    changes (f.written ancestry type key) = [] := by
  have hlevel := written_of_isText (by rfl)
    (allTexts_valueFor h.level (by simpa using ⟨hshift, hkey⟩) ancestry type)
  simpa using hlevel

theorem Tidy.isPlainText_written (h : f.Tidy) :
    isPlainText (f.written ancestry type "after") = true :=
  written_of_isText rfl (allTexts_valueFor h.plain (by simp) ancestry type)

theorem written_of_sure? {item : String} {cs : List Char}
    (hitem : nodeType? (if type.isEmpty then "*" else type) = some item)
    (h : f.sure? item key = some cs) : f.written ancestry type key = cs := by
  have hvalue (v : Json) (hv : (f.own? item key).getD (f.global key) = v)
      (hsure : ∀ members, v ≠ .obj members) : f.valueFor ancestry type key = v := by
    unfold own? at hv
    unfold valueFor
    cases hown : (f.data.get? (.text item)).bind (·.get? key) with
    | none =>
      rw [hown, Option.getD_none] at hv
      simp only [hitem, hown, Option.bind_none, hv]
      rw [outcome?]
      · rfl
      · exact fun members => hsure members
    | some own =>
      rw [hown, Option.getD_some] at hv
      simp only [hitem, hown, Option.bind_some, hv]
      rw [outcome?]
      exact fun members => hsure members
  unfold sure? at h
  unfold written
  split at h
  · rename_i hv
    rw [hvalue _ hv (by rintro _ ⟨⟩)]
    exact Option.some.inj h
  · rename_i s hv
    rw [hvalue _ hv (by rintro _ ⟨⟩)]
    exact Option.some.inj h
  · cases h

theorem foldl_moved_changes (w n : Nat) (cs : List Char) :
    (Indenter.directives cs).foldl (Indenter.Directive.moved w) n =
      (changes cs).foldl (Indenter.Directive.moved w) n := by
  unfold changes
  induction Indenter.directives cs generalizing n with
  | nil => rfl
  | cons d rest ih =>
    by_cases hd : d = .none
    · subst hd
      rw [List.foldl_cons, List.filter_cons_of_neg (by simp)]
      exact ih n
    · rw [List.filter_cons_of_pos (by simpa using hd), List.foldl_cons, List.foldl_cons]
      exact ih _

/-- The column after what is written for a key. -/
def columnAfter (f : Format) (ancestry : Option Ancestry) (type key : String) (w n : Nat) : Nat :=
  (Indenter.directives (f.written ancestry type key)).foldl (Indenter.Directive.moved w) n

theorem Tidy.columnAfter (h : f.Tidy) (hshift : key ∉ shiftKeys) (hkey : key ∉ settingKeys)
    (w n : Nat) : f.columnAfter ancestry type key w n = n := by
  rw [Format.columnAfter, foldl_moved_changes, h.changes_written hshift hkey, List.foldl_nil]

/-- Whatever surrounds a node, its closing hook undoes what its opening one has done. -/
theorem Tidy.paired (h : f.Tidy) (e : Enclosure) (type : String)
    (before after : Option Ancestry) (w n : Nat) :
    f.columnAfter after type e.beforeRight w (f.columnAfter before type e.afterLeft w n) = n := by
  unfold Format.columnAfter
  cases hitem : nodeType? (if type.isEmpty then "*" else type) with
  | none =>
    have hnone (a : Option Ancestry) (key : String) : f.written a type key = [] := by
      simp only [written, valueFor, hitem]
      rfl
    rw [hnone, hnone]
    rfl
  | some item =>
    have hundone := h.undone _ (Table.mem_of_lookup hitem) e
    unfold undoes at hundone
    split at hundone
    · rename_i a b ha hb
      rw [written_of_sure? hitem ha, written_of_sure? hitem hb, foldl_moved_changes,
        foldl_moved_changes]
      simp only [Bool.or_eq_true, Bool.and_eq_true, decide_eq_true_eq] at hundone
      rcases hundone with ⟨ha, hb⟩ | ⟨ha, hb⟩
      · rw [ha, hb]
        rfl
      · rw [ha, hb]
        exact Nat.add_sub_cancel ..
    · cases hundone

/-- An array with at most four elements is a short one. -/
theorem Tidy.isShort? (h : f.Tidy) (elements : Nat) :
    Layout.isShort? f elements = some (decide (elements ≤ 4)) := by
  simp only [Layout.isShort?, h.limit]
  simp [Json.truthy]

/-- After a node both bundled formats have the same. -/
theorem valueFor_after (ancestry : Option Ancestry) (type : String) :
    (bundled "cappuccino").valueFor ancestry type "after" =
      (bundled "compact").valueFor ancestry type "after" := by
  have hfacts := bundled_tidy
  simp only [Bool.and_eq_true, List.all_eq_true, decide_eq_true_eq] at hfacts
  obtain ⟨⟨⟨⟨-, hentries⟩, hall⟩, -⟩, -⟩ := hfacts
  have hgroups : (bundled "cappuccino").groups = (bundled "compact").groups :=
    congrArg Table.mk hentries
  have houtcome : (bundled "cappuccino").outcome? ancestry type =
      (bundled "compact").outcome? ancestry type := by
    funext v
    unfold outcome?
    split
    · rw [resolve_congr hgroups]
    · rfl
  have hglobal {f : Format} (hf : f.IsBundled) : f.global "after" = .null := hf.tidy.after
  refine valueFor_congr ancestry type (fun item hitem => ?_) ?_ houtcome
  · exact own?_of_agreesAt (hall _ (Table.mem_of_lookup hitem))
  · rw [hglobal (.inl rfl), hglobal (.inr rfl)]

end Format

namespace Compiler

/-- With a bundled format a unit is indented by blanks. -/
theorem indenter?_of_bundled {c : Compiler} (hf : c.format.IsBundled) :
    ∃ i w, c.indenter? = some i ∧ i.Blank w ∧ i.indentation = [] := by
  have hstring := hf.tidy.indentString
  have hfacts := Format.bundled_tidy
  simp only [Bool.and_eq_true] at hfacts
  rcases hf with hf | hf
  · have hwidth : c.format.global "indent-width" = .int 4 := by
      rw [hf]
      exact Json.eq_of_agrees hfacts.1.2
    simp only [indenter?, hstring, hwidth, Json.isNull, Bool.false_eq_true, if_false]
    exact ⟨_, 4, rfl, ⟨by omega, rfl, 0, rfl⟩, rfl⟩
  · have hwidth : c.format.global "indent-width" = .int 0 := by
      rw [hf]
      exact Json.eq_of_agrees hfacts.2
    simp only [indenter?, hstring, hwidth, Json.isNull, Bool.false_eq_true, if_false]
    exact ⟨_, 0, rfl, ⟨by omega, rfl, 0, rfl⟩, rfl⟩

end Compiler

end ObjectiveJ
