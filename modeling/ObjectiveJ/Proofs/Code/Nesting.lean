import ObjectiveJ.Proofs.Balance.Walk
import ObjectiveJ.Proofs.Code.Printed
import ObjectiveJ.Proofs.Code.Program

/-!
# The brackets of generated code

Laid out by a bundled format, an instruction has the brackets that its text has: the indentation is
made of blanks, and the format has no brackets. So the brackets of the code of a unit are those that
the walk has written, and these are nested (`Compiler.compile_isNested`).
-/

namespace ObjectiveJ

open Gen Text

/-! ### Numbered programs -/

mutual

/-- Numbering a program leaves its texts as they are. -/
theorem Value.texts_numbered (v : Value) (n : Nat) : (v.numbered.run n).1.texts = v.texts := by
  cases v with
  | tree t =>
    rw [Value.numbered_tree, Value.texts, Value.texts]
    exact Tree.texts_numbered t n
  | list items =>
    rw [Value.numbered_list, Value.texts, Value.texts]
    exact textsOfItems_numbered items n
  | tuple items =>
    rw [Value.numbered_tuple, Value.texts, Value.texts]
    exact textsOfItems_numbered items n
  | accessors property getter setter readonly readwrite copy =>
    obtain ⟨_, _, _, _, _, hrun⟩ :=
      Value.numbered_accessors property getter setter readonly readwrite copy n
    rw [hrun, Value.texts, Value.texts, Value.texts_numbered property, Value.texts_numbered getter,
      Value.texts_numbered setter, Value.texts_numbered readonly, Value.texts_numbered readwrite,
      Value.texts_numbered copy]
  | data j => rw [Value.numbered_data]
  | location l =>
    rw [Value.numbered] <;> simp
    rfl

theorem Tree.texts_numbered (t : Tree) (n : Nat) : (t.numbered.run n).1.texts = t.texts := by
  obtain ⟨type, span, fields, number⟩ := t
  rw [Tree.numbered_run, Tree.texts, Tree.texts]
  exact textsOfFields_numbered fields (n + 1)

theorem textsOfItems_numbered (items : List Value) (n : Nat) :
    textsOfItems ((numberedItems items).run n).1 = textsOfItems items := by
  cases items with
  | nil => rw [numberedItems_nil]
  | cons item rest =>
    rw [numberedItems_cons, textsOfItems, textsOfItems, Value.texts_numbered item,
      textsOfItems_numbered rest]

theorem textsOfFields_numbered (fields : List (String × Value)) (n : Nat) :
    textsOfFields ((numberedFields fields).run n).1 = textsOfFields fields := by
  cases fields with
  | nil =>
    rw [numberedFields]
    rfl
  | cons entry rest =>
    obtain ⟨name, value⟩ := entry
    rw [numberedFields_cons, textsOfFields, textsOfFields, Value.texts_numbered value,
      textsOfFields_numbered rest]

end

/-! ### Instructions that are laid out -/

/-- Only brackets count. -/
theorem Text.sameBrackets_filter (cs : List Char) : SameBrackets cs (cs.filter isBracket) := by
  induction cs with
  | nil => exact .refl []
  | cons c cs ih =>
    cases hc : isBracket c with
    | true =>
      rw [List.filter_cons_of_pos hc]
      exact (SameBrackets.refl [c]).append ih
    | false =>
      rw [List.filter_cons_of_neg (by simp [hc])]
      exact sameBrackets_cons hc ih

theorem Text.isBracket_of_isSpacing {c : Char} (h : isSpacing c = true) : isBracket c = false :=
  not_isBracket_of (p := isSpacing) (by decide) h

/-- Neither blanks and line breaks nor arrows are brackets. -/
theorem Text.sameBrackets_of_squeeze {cs ds : List Char}
    (h : squeeze cs = (squeeze ds).filter (· ≠ '→')) : SameBrackets cs ds := by
  have hsqueeze (cs : List Char) : (squeeze cs).filter isBracket = cs.filter isBracket := by
    rw [squeeze, List.filter_filter]
    refine List.filter_congr fun c _ => ?_
    cases hspacing : isSpacing c with
    | true => rw [isBracket_of_isSpacing hspacing]; rfl
    | false => simp
  have harrow (cs : List Char) : (cs.filter (· ≠ '→')).filter isBracket = cs.filter isBracket := by
    rw [List.filter_filter]
    refine List.filter_congr fun c _ => ?_
    by_cases hc : c = '→'
    · subst hc
      decide
    · simp [hc]
  have hsame : cs.filter isBracket = ds.filter isBracket := by
    rw [← hsqueeze cs, h, harrow, hsqueeze]
  exact (sameBrackets_filter cs).trans (hsame ▸ (sameBrackets_filter ds).symm)

/-- What the bundled formats have after a node has no brackets. -/
theorem Format.bundled_clear :
    ([bundled "cappuccino", bundled "compact"].all fun f =>
      f.allTextsUnder (· = "after") fun cs => cs.all fun c => !isBracket c) = true := by
  decide +kernel

namespace Instr

variable {f : Format} {j : Indenter} {w : Nat}

/-- An instruction that is laid out by a bundled format has the brackets of its text. -/
theorem sameBrackets_printed (hf : f.IsBundled) (hj : j.Blank w) {i : Instr}
    (hi : i.isUsual = true) : SameBrackets (i.printed f j) i.chars := by
  cases i with
  | text b v location => exact .refl _
  | template b s skipFirst location =>
    obtain ⟨text, htext, hsqueeze⟩ := hj.template? s.toList skipFirst
    rw [printed, htext]
    exact sameBrackets_of_squeeze hsqueeze
  | hook b type key ancestry =>
    rw [printed]
    split
    · rename_i name hname
      have hkey : name ∉ Format.settingKeys := by
        simp only [isUsual, List.all_eq_true, decide_eq_true_eq] at hi
        exact hi name (HookKey.keyText?_mem hname)
      by_cases hafter : name = "after"
      · subst hafter
        have hclear : (f.written (some ancestry) type "after").all (fun c => !isBracket c) =
            true := by
          have hunder := List.all_eq_true.1 Format.bundled_clear f
            (by rcases hf with rfl | rfl <;> simp)
          exact Format.written_of_isText (p := fun cs => cs.all fun c => !isBracket c) rfl
            (Format.allTexts_valueFor hunder (by simp) _ _)
        rw [j.value_of_isPlainText hf.tidy.isPlainText_written]
        exact sameBrackets_nil fun c hc => by simpa using List.all_eq_true.1 hclear c hc
      · obtain ⟨text, htext, hspacing⟩ := hj.value (hf.tidy.isSpacing_written hafter hkey)
        rw [htext]
        exact sameBrackets_nil fun c hc => isBracket_of_isSpacing (List.all_eq_true.1 hspacing c hc)
    · exact .refl _
  | indent | dedent | splice => exact .refl _

end Instr

theorem Printed.sameBrackets {f : Format} {w : Nat} (hf : f.IsBundled) {is : List Instr}
    {cs : List Char} (h : Printed f (·.Blank w) is cs) (his : ∀ i ∈ is, i.isUsual = true) :
    SameBrackets cs (is.flatMap Instr.chars) := by
  induction h with
  | nil => exact .refl _
  | cons hj _ ih =>
    rw [List.flatMap_cons]
    exact (Instr.sameBrackets_printed hf hj (his _ (.head _))).append
      (ih fun i hi => his i (.tail _ hi))

/-- The texts that may be taken back have no brackets. -/
theorem sameBrackets_solid (is : List Instr) :
    SameBrackets (is.flatMap Instr.chars)
      ((is.filter fun i => !i.isSlight).flatMap Instr.chars) := by
  induction is with
  | nil => exact .refl _
  | cons i rest ih =>
    rw [List.flatMap_cons]
    cases hslight : i.isSlight with
    | true =>
      rw [List.filter_cons_of_neg (by simp [hslight])]
      exact (Instr.chars_of_isSlight hslight).nil_append ih
    | false =>
      rw [List.filter_cons_of_pos (by simp [hslight]), List.flatMap_cons]
      exact (SameBrackets.refl _).append ih

/-! ### Units -/

namespace Compiler

variable {c : Compiler} {symbols : Symbols} {u : CompileUnit} {r : CompileResult}

theorem sameBrackets_of_endsAs {text : String} (h : r.EndsAs text) :
    SameBrackets r.code.toList text.toList := by
  have hterminated : SameBrackets (terminated text).toList text.toList := by
    unfold terminated
    split
    · exact .refl _
    · rw [String.toList_append]
      exact (SameBrackets.refl _).append_nil (.of_residue rfl)
  have htrailer (name : String) : Nests (trailer name) := by
    have hencoded (s : String) : Nests (percentEncode s) := by
      refine IsClear.nests fun d hd => ?_
      rcases mem_percentEncode hd with h | rfl
      · exact not_isBracket_of (by decide) h
      · decide
    exact (Nests.append (.of_residue rfl) (hencoded _)).append (.of_residue rfl)
  rcases h with h | ⟨name, h⟩
  · rw [h]
    exact hterminated
  · rw [h, String.toList_append]
    exact hterminated.append_nil (htrailer name)

/-- If no text of the program has a bracket, and no source text is shown, then the code of a unit
that is walked through to its end has nested brackets, whatever the options and the known symbols
are. -/
theorem compile_isNested (hformat : c.format.IsBundled) (hsource : u.source = .null)
    (hclear : u.program.Clear) (h : (c.compile symbols u).1 = .ok r)
    (hfinishes : c.Finishes symbols u) : IsNested r.code.toList := by
  obtain ⟨indenter, w, hindenter, hblank, _⟩ := indenter?_of_bundled hformat
  obtain ⟨source, text, hsource', hends, hprinted⟩ := printed_of_compile (P := (·.Blank w))
    (fun j hj => Option.mem_unique hindenter hj ▸ hblank) (fun hj => hj.indented?) h
  obtain rfl : source = none := by
    simp only [CompileUnit.source?, hsource] at hsource'
    exact (Option.some.inj hsource').symm
  obtain ⟨source, hsource', hok⟩ := hfinishes
  obtain rfl : source = none := by
    simp only [CompileUnit.source?, hsource] at hsource'
    exact (Option.some.inj hsource').symm
  let A : Account := ⟨fun _ => false, True, False, c.options.inlineMsgSend, symbols.store.size⟩
  have hfits : Fits A (u.program.numbered.run symbols.nodes).1 :=
    ⟨fun _ => by rw [Value.Clear, Value.texts_numbered]; exact hclear, nofun⟩
  obtain ⟨code, hcontents, _, hbrackets, _⟩ := outcome_writes (fun _ => rfl) rfl rfl hfits hok
  have husual : ∀ i ∈ (c.outcome symbols u none none).2.written 0, i.isUsual = true := fun i hi =>
    generate_usual _ rfl i (GenState.mem_written hi)
  have hwritten : SameBrackets text.toList code.chars := by
    have hsolid := sameBrackets_solid ((c.outcome symbols u none none).2.written 0)
    rw [GenState.solid_written, hcontents] at hsolid
    exact (hprinted.sameBrackets hformat husual).trans hsolid
  exact ((sameBrackets_of_endsAs hends).trans (hwritten.trans (hbrackets trivial))).isNested

/-- The unit of `[[store items] add: thing];`, where the receiver takes a temp. -/
def nestedSends : CompileUnit where
  program := .program
    [.statement (.send (.send (.name "store") "items" []) "add" [.name "thing"])]

theorem compile_nestedSends_isNested : nestedSends.program.Clear ∧ ∃ r,
    ((unmapped.withFormat (.bundled "cappuccino")).compile {} nestedSends).1 = .ok r ∧
      IsNested r.code.toList := by
  have hclear : nestedSends.program.Clear := by
    unfold Value.Clear AllClear
    decide +kernel
  obtain ⟨r, hr, hsuccess⟩ := exists_ok_of_map (f := CompileResult.success) (b := true)
    (x := ((unmapped.withFormat (.bundled "cappuccino")).compile {} nestedSends).1)
      (by decide +kernel)
  exact ⟨hclear, r, hr, compile_isNested (.inl rfl) rfl hclear hr (finishes_of_success hr hsuccess)⟩

end Compiler

end ObjectiveJ
