import ObjectiveJ.Proofs.Balance.Restores
import ObjectiveJ.Proofs.Compile
import ObjectiveJ.Proofs.Layout.Blank

/-!
# The bundled formats lay out the same code

The instructions for a program do not depend on the format. Carried out by the two bundled formats
they fill the buffers with texts that are the same but for blanks and line breaks
(`Layout.Matches.runFrom`), so both formats give the same code to every unit
(`Compiler.compile_squeezed`).
-/

namespace ObjectiveJ

/-- A text without its blanks and line breaks. -/
def Text.squeeze (cs : List Char) : List Char := cs.filter fun c => !isSpacing c

@[simp] theorem Text.squeeze_append (xs ys : List Char) :
    squeeze (xs ++ ys) = squeeze xs ++ squeeze ys := List.filter_append ..

theorem Text.squeeze_eq_nil {cs : List Char} (h : cs.all isSpacing = true) : squeeze cs = [] := by
  simp only [squeeze, List.filter_eq_nil_iff, Bool.not_eq_true']
  intro c hc
  simp [List.all_eq_true.1 h c hc]

/-! ### Templates -/

theorem Text.squeeze_join {ps qs : List (List Char)}
    (h : ps.map squeeze = qs.map squeeze) : squeeze (join '\n' ps) = squeeze (join '\n' qs) := by
  have hbreak (xs : List Char) : squeeze ('\n' :: xs) = squeeze xs := rfl
  induction ps generalizing qs with
  | nil =>
    obtain rfl := List.map_eq_nil_iff.1 h.symm
    rfl
  | cons p ps ih =>
    obtain ⟨q, qs, rfl, hq, hqs⟩ := List.map_eq_cons_iff.1 h.symm
    have hrest := ih hqs.symm
    cases ps with
    | nil =>
      obtain rfl := List.map_eq_nil_iff.1 hqs
      exact hq.symm
    | cons p' ps =>
      cases qs with
      | nil => cases hqs
      | cons q' qs =>
        rw [join_cons_cons, join_cons_cons, squeeze_append, squeeze_append, hbreak, hbreak,
          hrest, hq]

theorem Text.squeeze_replaceChar {c : Char} {text : List Char} (h : text.all isSpacing = true)
    (cs : List Char) : squeeze (replaceChar c text cs) = (squeeze cs).filter (· ≠ c) := by
  induction cs with
  | nil => rfl
  | cons d cs ih =>
    have hcons : replaceChar c text (d :: cs) =
        (if d = c then text else [d]) ++ replaceChar c text cs := rfl
    rw [hcons, squeeze_append, ih]
    by_cases hd : d = c
    · subst hd
      rw [if_pos rfl, squeeze_eq_nil h]
      by_cases hs : isSpacing d = true <;> simp [squeeze, hs]
    · rw [if_neg hd]
      by_cases hs : isSpacing d = true <;> simp [squeeze, hs, hd]

namespace Indenter

variable {i : Indenter} {w : Nat}

theorem Blank.squeeze_line (h : i.Blank w) (cs : List Char) :
    Text.squeeze (i.line cs) = Text.squeeze cs := by
  unfold Indenter.line
  split
  · rfl
  · rw [Text.squeeze_append, Text.squeeze_eq_nil h.all_indentation, List.nil_append]

theorem Blank.template? (h : i.Blank w) (cs : List Char) (skipFirst : Bool) :
    ∃ text, i.template? cs skipFirst = some text ∧
      Text.squeeze text = (Text.squeeze cs).filter (· ≠ '→') := by
  have hstep : i.step.text? = some (List.replicate w ' ') := by
    rw [h.step]
    rfl
  have hlines : (i.templateLines skipFirst (Text.split '\n' cs)).map Text.squeeze =
      (Text.split '\n' cs).map Text.squeeze := by
    cases Text.split '\n' cs with
    | nil => rfl
    | cons first rest =>
      have hrest : (rest.map i.line).map Text.squeeze = rest.map Text.squeeze := by
        rw [List.map_map]
        exact List.map_congr_left fun line _ => h.squeeze_line line
      rw [templateLines, List.map_cons, hrest, List.map_cons]
      cases skipFirst with
      | true => rfl
      | false => simp [h.squeeze_line]
  refine ⟨_, by simp only [Indenter.template?, hstep]; rfl, ?_⟩
  rw [Text.squeeze_replaceChar (by simp [Text.isSpacing]), Text.squeeze_join hlines,
    Text.join_split]

end Indenter

/-! ### Buffers -/

/-- The text of fragments without its blanks and line breaks, if all of them are texts. -/
def Fragment.squeezed? (fs : List Fragment) : Option (List Char) :=
  (Fragment.text? fs).map fun s => Text.squeeze s.toList

theorem Fragment.squeezed?_append (fs gs : List Fragment) : squeezed? (fs ++ gs) =
    (squeezed? fs).bind fun xs => (squeezed? gs).map (xs ++ ·) := by
  simp only [squeezed?, Fragment.text?, List.mapM_append]
  cases fs.mapM fun f => f.value.text? with
  | none => rfl
  | some xs =>
    cases gs.mapM fun f => f.value.text? with
    | none => rfl
    | some ys => simp [String.join_append]

namespace Layout

theorem fragments_append (l : Layout) (fs : Array Fragment) (buffer other : Nat) :
    (l.append buffer fs).fragments other =
      if buffer = other then l.fragments other ++ fs else l.fragments other := by
  split
  · rename_i h
    subst h
    exact l.fragments_append_self fs buffer
  · rename_i h
    simp only [fragments, append]
    rw [Array.getElem?_modify, if_neg h, Array.getElem?_append]
    by_cases hsize : other < l.buffers.size
    · simp [hsize]
    · rw [if_neg hsize]
      cases hnew : (Array.replicate (buffer + 1 - l.buffers.size) (#[] : Array Fragment))[
          other - l.buffers.size]? with
      | none => simp [hsize]
      | some empty =>
        obtain ⟨_, hempty⟩ := Array.getElem?_eq_some_iff.1 hnew
        simp [hsize, ← hempty]

/-- A layout after a step that writes nothing but blanks and line breaks. -/
structure Spaced (l k : Layout) : Prop where
  format : k.format = l.format
  same : ∀ buffer, Fragment.squeezed? (k.fragments buffer).toList =
    Fragment.squeezed? (l.fragments buffer).toList

theorem Spaced.refl (l : Layout) : l.Spaced l := ⟨rfl, fun _ => rfl⟩

theorem Spaced.write (l : Layout) (buffer : Nat) {text : List Char} (indenter : Indenter)
    (htext : text.all Text.isSpacing = true) :
    l.Spaced { l.write buffer (.str (String.ofList text)) none with indenter } := by
  refine ⟨rfl, fun other => ?_⟩
  change Fragment.squeezed? ((l.append buffer _).fragments other).toList = _
  rw [fragments_append]
  split
  · rw [Array.toList_append, Fragment.squeezed?_append]
    cases Fragment.squeezed? (l.fragments other).toList with
    | none => rfl
    | some xs => simp [Fragment.squeezed?, Fragment.text?, Value.text?, Text.squeeze_eq_nil htext]
  · rfl

theorem hook_spaced {l : Layout} {w : Nat} (hf : l.format.Tidy) (hi : l.indenter.Blank w)
    (buffer : Nat) (type : String) {key : String} (ancestry : Ancestry) (hafter : key ≠ "after")
    (hkey : key ∉ Format.settingKeys) :
    ∃ k, l.hook buffer type key ancestry = .ok k ∧ l.Spaced k ∧
      k.indenter = l.indenter.atColumn
        (l.format.columnAfter ancestry type key w l.indenter.indentation.length) := by
  have htext := Format.allTexts_valueFor hf.spacing (by simpa using ⟨hafter, hkey⟩) ancestry type
  unfold hook Format.columnAfter Format.written
  rcases htext with hv | ⟨s, hv, hs⟩
  · rw [hv]
    exact ⟨l, rfl, .refl l, hi.eq_atColumn.symm⟩
  · rw [hv]
    obtain ⟨text, htext, hspacing⟩ := hi.value hs
    by_cases hempty : s = ""
    · subst hempty
      exact ⟨l, rfl, .refl l, hi.eq_atColumn.symm⟩
    · have htruthy : (Json.str s).truthy = true := by simpa [Json.truthy] using hempty
      simp only [htruthy, Bool.not_true, Bool.false_eq_true, if_false, htext]
      exact ⟨_, rfl, .write l buffer _ hspacing, rfl⟩

/-- Two layouts by the two bundled formats whose buffers hold the same up to blanks and line
breaks. -/
structure Matches (l l' : Layout) : Prop where
  format : l.format = Format.bundled "cappuccino"
  format' : l'.format = Format.bundled "compact"
  blank : ∃ w, l.indenter.Blank w
  blank' : ∃ w, l'.indenter.Blank w
  same : ∀ buffer, Fragment.squeezed? (l.fragments buffer).toList =
    Fragment.squeezed? (l'.fragments buffer).toList

namespace Matches

variable {l l' : Layout}

theorem tidy (h : l.Matches l') : l.format.Tidy ∧ l'.format.Tidy :=
  ⟨Format.IsBundled.tidy (.inl h.format), Format.IsBundled.tidy (.inr h.format')⟩

theorem spaced {k k' : Layout} (h : l.Matches l') (hk : l.Spaced k) (hk' : l'.Spaced k')
    (hi : ∃ w, k.indenter.Blank w) (hi' : ∃ w, k'.indenter.Blank w) : k.Matches k' where
  format := hk.format.trans h.format
  format' := hk'.format.trans h.format'
  blank := hi
  blank' := hi'
  same buffer := by rw [hk.same, hk'.same, h.same]

theorem append (h : l.Matches l') (buffer : Nat) {fs fs' : Array Fragment}
    (hfs : Fragment.squeezed? fs.toList = Fragment.squeezed? fs'.toList) :
    (l.append buffer fs).Matches (l'.append buffer fs') := by
  refine ⟨h.format, h.format', h.blank, h.blank', fun other => ?_⟩
  rw [fragments_append, fragments_append]
  split
  · rw [Array.toList_append, Array.toList_append, Fragment.squeezed?_append,
      Fragment.squeezed?_append, h.same, hfs]
  · exact h.same other

theorem write (h : l.Matches l') (buffer : Nat) {v v' : Value} (location : Option Location)
    (hv : (v.text?.map fun s => Text.squeeze s.toList) =
      v'.text?.map fun s => Text.squeeze s.toList) :
    (l.write buffer v location).Matches (l'.write buffer v' location) := by
  have hone (serial : Nat) (v : Value) (place : Option Location) :
      Fragment.squeezed? [{ serial, value := v, location := place }] =
        v.text?.map fun s => Text.squeeze s.toList := by
    simp only [Fragment.squeezed?, Fragment.text?, List.mapM_cons, List.mapM_nil]
    cases v.text? with
    | none => rfl
    | some s => simp
  have hboth : Fragment.squeezed? [⟨l.count, v, l.placeOf location⟩] =
      Fragment.squeezed? [⟨l'.count, v', l'.placeOf location⟩] := by
    rw [hone, hone, hv]
  have happend := h.append buffer hboth
  exact ⟨happend.format, happend.format', happend.blank, happend.blank', happend.same⟩

/-- After a node both formats write the same. -/
theorem hook_after (h : l.Matches l') (buffer : Nat) (type : String) (ancestry : Ancestry) :
    ∃ k k', l.hook buffer type "after" ancestry = .ok k ∧
      l'.hook buffer type "after" ancestry = .ok k' ∧ k.Matches k' := by
  have hplain : (l.format.valueFor ancestry type "after").IsText isPlainText :=
    Format.allTexts_valueFor h.tidy.1.plain (by simp) ancestry type
  have hsame : l'.format.valueFor ancestry type "after" =
      l.format.valueFor ancestry type "after" := by
    rw [h.format, h.format', Format.valueFor_after]
  unfold hook
  rw [hsame]
  rcases hplain with hv | ⟨s, hv, hs⟩
  · rw [hv]
    exact ⟨l, l', rfl, rfl, h⟩
  · rw [hv]
    simp only [Indenter.value_of_isPlainText _ hs, String.ofList_toList]
    split
    · exact ⟨l, l', rfl, rfl, h⟩
    · exact ⟨_, _, rfl, rfl, h.write buffer none rfl⟩

theorem hook (h : l.Matches l') (buffer : Nat) (type : String) {key : String} (ancestry : Ancestry)
    (hkey : key ∉ Format.settingKeys) :
    ∃ k k', l.hook buffer type key ancestry = .ok k ∧
      l'.hook buffer type key ancestry = .ok k' ∧ k.Matches k' := by
  by_cases hafter : key = "after"
  · subst hafter
    exact h.hook_after buffer type ancestry
  · obtain ⟨w, hi⟩ := h.blank
    obtain ⟨w', hi'⟩ := h.blank'
    obtain ⟨k, hk, hspaced, hindenter⟩ := hook_spaced h.tidy.1 hi buffer type ancestry hafter hkey
    obtain ⟨k', hk', hspaced', hindenter'⟩ :=
      hook_spaced h.tidy.2 hi' buffer type ancestry hafter hkey
    exact ⟨k, k', hk, hk', h.spaced hspaced hspaced' ⟨w, hindenter ▸ hi.atColumn _⟩
      ⟨w', hindenter' ▸ hi'.atColumn _⟩⟩

theorem exec (h : l.Matches l') {i : Instr} (hi : i.isUsual = true) :
    ∃ k k', l.exec i = .ok k ∧ l'.exec i = .ok k' ∧ k.Matches k' := by
  obtain ⟨w, hblank⟩ := h.blank
  obtain ⟨w', hblank'⟩ := h.blank'
  cases i with
  | text buffer value location => exact ⟨_, _, rfl, rfl, h.write buffer location rfl⟩
  | template buffer s skipFirst location =>
    obtain ⟨text, htext, hsqueeze⟩ := hblank.template? s.toList skipFirst
    obtain ⟨text', htext', hsqueeze'⟩ := hblank'.template? s.toList skipFirst
    refine ⟨_, _, by simp only [Layout.exec, htext]; rfl, by simp only [Layout.exec, htext']; rfl,
      h.write buffer location ?_⟩
    simp [Value.text?, hsqueeze, hsqueeze']
  | hook buffer type key ancestry =>
    have hshort : Layout.keyText? l'.format key = Layout.keyText? l.format key := by
      cases key with
      | plain key => rfl
      | bracket side name elements =>
        simp only [Layout.keyText?, h.tidy.1.isShort?, h.tidy.2.isShort?]
    have hsome : ∃ text, Layout.keyText? l.format key = some text := by
      cases key with
      | plain key => exact ⟨key, rfl⟩
      | bracket side name elements =>
        simp only [Layout.keyText?, h.tidy.1.isShort?]
        exact ⟨_, rfl⟩
    obtain ⟨text, htext⟩ := hsome
    have hkey : text ∉ Format.settingKeys := by
      simp only [Instr.isUsual, List.all_eq_true, decide_eq_true_eq] at hi
      exact hi text (HookKey.keyText?_mem htext)
    simp only [Layout.exec, hshort, htext]
    exact h.hook buffer type ancestry hkey
  | indent n =>
    obtain rfl : n = 1 := by simpa [Instr.isUsual] using hi
    refine ⟨_, _, by simp only [Layout.exec, hblank.indent?]; rfl,
      by simp only [Layout.exec, hblank'.indent?]; rfl, ?_⟩
    exact h.spaced ⟨rfl, fun _ => rfl⟩ ⟨rfl, fun _ => rfl⟩ ⟨w, hblank.atColumn _⟩
      ⟨w', hblank'.atColumn _⟩
  | dedent n =>
    obtain rfl : n = 1 := by simpa [Instr.isUsual] using hi
    refine ⟨_, _, by simp only [Layout.exec, hblank.dedent?]; rfl,
      by simp only [Layout.exec, hblank'.dedent?]; rfl, ?_⟩
    exact h.spaced ⟨rfl, fun _ => rfl⟩ ⟨rfl, fun _ => rfl⟩ ⟨w, hblank.atColumn _⟩
      ⟨w', hblank'.atColumn _⟩
  | splice target source => exact ⟨_, _, rfl, rfl, h.append target (h.same source)⟩

/-- Whole code: both formats carry out the same instructions, and lay out the same. -/
theorem runFrom (h : l.Matches l') {is : List Instr} (his : ∀ i ∈ is, i.isUsual = true)
    (number : Nat) :
    ∃ k k', l.runFrom number is = .ok k ∧ l'.runFrom number is = .ok k' ∧ k.Matches k' := by
  induction is generalizing l l' number with
  | nil => exact ⟨l, l', rfl, rfl, h⟩
  | cons i rest ih =>
    obtain ⟨k, k', hk, hk', hmatches⟩ := h.exec (his i (.head _))
    simp only [Layout.runFrom, hk, hk']
    exact ih hmatches (fun j hj => his j (.tail _ hj)) (number + 1)

end Matches

end Layout

/-! ### Units -/

/-- What a result says but for the blanks and line breaks in the code. -/
def CompileResult.squeezed (r : CompileResult) : List Char × Option String × Diagnostics :=
  (Text.squeeze r.code.toList, r.sourceMap, r.diagnostics)

namespace Compiler

/-- A compiler with another format. -/
def withFormat (c : Compiler) (f : Format) : Compiler := { c with format := f }

theorem squeeze_terminated (s : String) :
    Text.squeeze (terminated s).toList = Text.squeeze s.toList := by
  unfold terminated
  split
  · rfl
  · rw [String.toList_append, Text.squeeze_append]
    exact List.append_nil _

/-- Without a source map, a result says what its fragments say. -/
theorem finish_squeezed {c c' : Compiler} (h : c.options.sourceMap = false)
    (h' : c'.options.sourceMap = false) (u : CompileUnit) {l l' : Layout}
    (hsame : Fragment.squeezed? (l.fragments 0).toList =
      Fragment.squeezed? (l'.fragments 0).toList) (d : Diagnostics) :
    (c.finish u l d).map CompileResult.squeezed =
      (c'.finish u l' d).map CompileResult.squeezed := by
  unfold finish output?
  simp only [h, h', Bool.not_false, if_true]
  unfold Fragment.squeezed? at hsame
  cases htext : Fragment.text? (l.fragments 0).toList with
  | none =>
    rw [htext, Option.map_none, eq_comm, Option.map_eq_none_iff] at hsame
    rw [hsame]
  | some text =>
    rw [htext, Option.map_some, eq_comm, Option.map_eq_some_iff] at hsame
    obtain ⟨text', htext', hsqueeze⟩ := hsame
    rw [htext']
    cases outputName? u with
    | none => rfl
    | some name =>
      change Except.ok (CompileResult.squeezed _) = Except.ok (CompileResult.squeezed _)
      simp only [CompileResult.squeezed, squeeze_terminated, hsqueeze]

/-- Two formats that are bundled lead to results that say the same. -/
theorem compile_withFormat (c : Compiler) (symbols : Symbols) (u : CompileUnit)
    (h : c.options.sourceMap = false) {f f' : Format} (hf : f = .bundled "cappuccino")
    (hf' : f' = .bundled "compact") :
    ((c.withFormat f).compile symbols u).1.map CompileResult.squeezed =
        ((c.withFormat f').compile symbols u).1.map CompileResult.squeezed ∧
      ((c.withFormat f).compile symbols u).2 = ((c.withFormat f').compile symbols u).2 := by
  obtain ⟨i, w, hi, hblank, _⟩ := indenter?_of_bundled (c := c.withFormat f) (.inl hf)
  obtain ⟨i', w', hi', hblank', _⟩ := indenter?_of_bundled (c := c.withFormat f') (.inr hf')
  cases hsource : u.source? with
  | none => simp only [compile, hi, hi', hsource, and_self]
  | some source =>
    have hmatches : ({ format := f, indenter := i } : Layout).Matches
        { format := f', indenter := i' } :=
      ⟨hf, hf', ⟨w, hblank⟩, ⟨w', hblank'⟩, fun _ => rfl⟩
    have husual : ∀ j ∈ (c.outcome symbols u source none).2.trace.toList, j.isUsual = true :=
      generate_usual _ rfl
    obtain ⟨k, k', hk, hk', hend⟩ := hmatches.runFrom husual 0
    have houtcome (f : Format) : (c.withFormat f).outcome symbols u source none =
        c.outcome symbols u source none := rfl
    have hleft := compile_of_run (c := c.withFormat f) hi hsource hk
    have hright := compile_of_run (c := c.withFormat f') hi' hsource hk'
    rw [houtcome] at hleft hright
    rw [hleft, hright]
    refine ⟨?_, rfl⟩
    cases conclude (c.outcome symbols u source none).2.diagnostics
      (c.outcome symbols u source none).1 with
    | error e => rfl
    | ok d => exact finish_squeezed h h u (hend.same 0) d

/-- The bundled formats lay out every unit as the same code but for blanks and line breaks, with the
same issues, or they find the same error. The symbol tables are the same afterwards. -/
theorem compile_squeezed (c : Compiler) (symbols : Symbols) (u : CompileUnit)
    (h : c.options.sourceMap = false) :
    ((c.withFormat (.bundled "cappuccino")).compile symbols u).1.map CompileResult.squeezed =
        ((c.withFormat (.bundled "compact")).compile symbols u).1.map CompileResult.squeezed ∧
      ((c.withFormat (.bundled "cappuccino")).compile symbols u).2 =
        ((c.withFormat (.bundled "compact")).compile symbols u).2 :=
  compile_withFormat c symbols u h rfl rfl

/-- The unit of `while (more) list = [a, b, c, d, e];`, where the array is too long for one line. -/
def longArray : CompileUnit where
  program :=
    let array : Value :=
      .node .arrayExpression [("elements", .list (["a", "b", "c", "d", "e"].map .name))]
    .program [.node .whileStatement
      [("test", .name "more"), ("body", .statement (.assign (.name "list") array))]]

def unmapped : Compiler where
  options := { sourceMap := false }
  format := {}
  predefined := {}

theorem compile_longArray_squeezed : unmapped.options.sourceMap = false ∧
    ((unmapped.withFormat (.bundled "cappuccino")).compile {} longArray).1.isOk = true ∧
    ((unmapped.withFormat (.bundled "cappuccino")).compile {} longArray).1.map
        CompileResult.squeezed =
      ((unmapped.withFormat (.bundled "compact")).compile {} longArray).1.map
        CompileResult.squeezed :=
  ⟨rfl, by decide +kernel, (compile_squeezed unmapped {} longArray rfl).1⟩

end Compiler

end ObjectiveJ
