import ObjectiveJ.Proofs.Code.Printed
import ObjectiveJ.Proofs.SourceMap.Reading
import Mathlib.Data.List.Forall2
import Mathlib.Data.List.Induction

/-!
# What a source map says

The source map of a unit is exact (`Compiler.compile_sourceMap_exact`): read by the rules of source
maps it has one entry for each instruction that is written for a place in the source, in the order
of the code, and the entry leads from the first character of what the instruction has written to
that place.
-/

namespace ObjectiveJ

variable {fs : List Fragment} {code : String} {p : Position}

namespace SourceMap

variable {q : Position}

/-! ### Positions in a text -/

namespace Position

/-- The order of positions in a text. -/
def Precedes (p q : Position) : Prop := p.line < q.line ∨ p.line = q.line ∧ p.column ≤ q.column

theorem Precedes.refl (p : Position) : p.Precedes p := .inr ⟨rfl, Nat.le_refl _⟩

theorem Precedes.trans {r : Position} (hpq : p.Precedes q) (hqr : q.Precedes r) : p.Precedes r := by
  unfold Precedes at *
  omega

theorem precedes_step (p : Position) (c : Char) : p.Precedes (p.step c) := by
  unfold step Precedes
  split
  · exact .inl (Nat.lt_succ_self _)
  · exact .inr ⟨rfl, Nat.le_succ _⟩

theorem precedes_after (p : Position) (cs : List Char) : p.Precedes (p.after cs) := by
  induction cs generalizing p with
  | nil => exact .refl p
  | cons c cs ih => exact (precedes_step p c).trans (ih (p.step c))

theorem precedes_afterValue? {v : Value} (h : p.afterValue? v = some q) : p.Precedes q := by
  unfold afterValue? at h
  split at h
  · cases h
    exact precedes_after ..
  · split at h
    · cases h
    · cases h
      exact .inr ⟨rfl, Nat.le_add_right ..⟩
  · cases h

/-- The line after a text is told by its line breaks, and the column by what follows the last one.
-/
theorem after_eq (cs : List Char) :
    ({} : Position).after cs =
      ⟨cs.count '\n' + 1, (cs.reverse.takeWhile (· ≠ '\n')).length⟩ := by
  induction cs using List.reverseRecOn with
  | nil => rfl
  | append_singleton cs c ih =>
    rw [after_append, ih]
    by_cases hc : c = '\n'
    · subst hc
      simp [after, step]
    · simp [after, step, hc]

end Position

/-! ### Names of files -/

theorem getLastD_split (sep : Char) (cs : List Char) :
    ∃ dir, cs = dir ++ (Text.split sep cs).getLastD [] ∧ sep ∉ (Text.split sep cs).getLastD [] ∧
      (dir = [] ∨ dir.getLast? = some sep) := by
  obtain ⟨pieces, last, hsplit, hcs, hlast, _⟩ := Text.split_spec sep cs
  have hend : (Text.split sep cs).getLastD [] = last := by simp [hsplit]
  rw [hend]
  refine ⟨_, hcs, hlast, ?_⟩
  rcases pieces.eq_nil_or_concat with rfl | ⟨before, piece, rfl⟩
  · exact .inl rfl
  · exact .inr (by simp)

/-- The last part of a file name follows the last slash. -/
theorem baseName_spec (file : String) :
    ∃ dir : List Char, file.toList = dir ++ (baseName file).toList ∧
      '/' ∉ (baseName file).toList ∧ (dir = [] ∨ dir.getLast? = some '/') := by
  simpa [baseName] using getLastD_split '/' file.toList

/-! ### The mappings of fragments -/

variable {p : Position} {l : Location} {m : Mapping} {ms : List Mapping} {fs : List Fragment}

/-- A mapping stands at a position, and is spelled as its source is. -/
structure Mapping.At (m : Mapping) (p : Position) : Prop where
  place : m.place = .number p.line
  column : m.column = p.column
  source : ∃ s, m.source = .text s
  spelling : m.spelling = m.source.toJson

theorem Mapping.At.line (h : m.At p) : m.line = p.line := by
  rw [Mapping.line, h.place]

theorem Mapping.At.before {n : Mapping} (hm : m.At p) (hn : n.At q) (hpq : p.Precedes q) :
    m.before n = true ∧ m.line ≤ n.line := by
  unfold Position.Precedes at hpq
  refine ⟨?_, by rw [hm.line, hn.line]; omega⟩
  rw [Mapping.before, hm.place, hn.place, hm.column, hn.column]
  split
  · rename_i hline
    have hline : (p.line : Int) = q.line := Key.number.inj hline
    simpa using (by omega : p.column ≤ q.column)
  · simpa [Key.numberLe] using (by omega : p.line ≤ q.line)

/-- What a mapping of a location says. -/
theorem ofLocation?_eq_some (h : Mapping.ofLocation? p l = some m) : m.At p ∧
    ∃ file, l.file = .str file ∧ m.source = .text (baseName file) ∧
      l.line.whole? = some m.sourceLine ∧ sourceColumn? l.column = some m.sourceColumn := by
  simp only [Mapping.ofLocation?, Option.bind_eq_bind, Option.bind_eq_some_iff, Option.pure_def,
    Option.some.injEq] at h
  obtain ⟨file, hfile, line, hline, column, hcolumn, rfl⟩ := h
  refine ⟨⟨rfl, rfl, ⟨_, rfl⟩, rfl⟩, file, ?_, rfl, hline, hcolumn⟩
  unfold Value.text? at hfile
  split at hfile
  · rename_i heq
    rw [heq, Option.some.inj hfile]
  · cases hfile

theorem ofFragments?_cons {f : Fragment} (h : ofFragments? p (f :: fs) = some ms) :
    ∃ q rest, p.afterValue? f.value = some q ∧ ofFragments? q fs = some rest ∧
      (f.location = none ∧ ms = rest ∨
        ∃ l m, f.location = some l ∧ Mapping.ofLocation? p l = some m ∧ ms = m :: rest) := by
  cases hl : f.location with
  | none =>
    simp only [ofFragments?, hl, Option.bind_eq_bind, Option.bind_eq_some_iff, Option.pure_def,
      Option.some.injEq] at h
    obtain ⟨here, rfl, q, hq, rest, hrest, rfl⟩ := h
    exact ⟨q, rest, hq, hrest, .inl ⟨rfl, rfl⟩⟩
  | some l =>
    simp only [ofFragments?, hl, Option.bind_eq_bind, Option.bind_eq_some_iff, Option.pure_def,
      Option.some.injEq] at h
    obtain ⟨m, hm, here, rfl, q, hq, rest, hrest, rfl⟩ := h
    exact ⟨q, rest, hq, hrest, .inr ⟨l, m, rfl, hm, rfl⟩⟩

/-- The mappings of fragments are in order, and none stands before the first fragment. -/
theorem ofFragments?_ordered (h : ofFragments? p fs = some ms) :
    (∀ m ∈ ms, ∃ q, m.At q ∧ p.Precedes q) ∧
      ms.Pairwise fun m n => m.before n = true ∧ m.line ≤ n.line := by
  induction fs generalizing p ms with
  | nil =>
    cases h
    exact ⟨nofun, .nil⟩
  | cons f fs ih =>
    obtain ⟨q, rest, hq, hrest, hms⟩ := ofFragments?_cons h
    obtain ⟨hat, hpairwise⟩ := ih hrest
    have hpq := Position.precedes_afterValue? hq
    have hlater : ∀ m ∈ rest, ∃ r, m.At r ∧ p.Precedes r := by
      intro m hm
      obtain ⟨r, hr, hqr⟩ := hat m hm
      exact ⟨r, hr, hpq.trans hqr⟩
    rcases hms with ⟨_, rfl⟩ | ⟨l, m, _, hm, rfl⟩
    · exact ⟨hlater, hpairwise⟩
    · have hmp := (ofLocation?_eq_some hm).1
      refine ⟨?_, List.pairwise_cons.2 ⟨?_, hpairwise⟩⟩
      · intro n hn
        rcases List.mem_cons.1 hn with rfl | hn
        · exact ⟨p, hmp, .refl p⟩
        · exact hlater n hn
      · intro n hn
        obtain ⟨r, hr, hpr⟩ := hlater n hn
        exact hmp.before hr hpr

/-! ### Sources -/

theorem mem_sources (hm : m ∈ ms) : m.source ∈ sources ms := by
  have hfold (known : List Key) (ms : List Mapping) :
      known ⊆ ms.foldl (fun known m => if m.source ∈ known then known else known ++ [m.source])
        known ∧ ∀ m ∈ ms, m.source ∈
          ms.foldl (fun known m => if m.source ∈ known then known else known ++ [m.source])
            known := by
    induction ms generalizing known with
    | nil => simp
    | cons n ms ih =>
      rw [List.foldl_cons]
      obtain ⟨hsub, hmem⟩ := ih (if n.source ∈ known then known else known ++ [n.source])
      have hknown : known ⊆ if n.source ∈ known then known else known ++ [n.source] := by
        split <;> simp
      have hn : n.source ∈ if n.source ∈ known then known else known ++ [n.source] := by
        split
        · assumption
        · simp
      refine ⟨fun k hk => hsub (hknown hk), fun m hm => ?_⟩
      rcases List.mem_cons.1 hm with rfl | hm
      · exact hsub hn
      · exact hmem m hm
  exact (hfold [] ms).2 m hm

theorem exists_of_mem_sources {k : Key} (hk : k ∈ sources ms) : ∃ m ∈ ms, m.source = k := by
  have hfold (known : List Key) (ms : List Mapping) : ∀ k ∈
      ms.foldl (fun known m => if m.source ∈ known then known else known ++ [m.source]) known,
        k ∈ known ∨ ∃ m ∈ ms, m.source = k := by
    induction ms generalizing known with
    | nil => simp
    | cons n ms ih =>
      intro k hk
      rcases ih _ k hk with hk | ⟨m, hm, rfl⟩
      · dsimp only at hk
        split at hk
        · exact .inl hk
        · rcases List.mem_append.1 hk with hk | hk
          · exact .inl hk
          · obtain rfl := List.mem_singleton.1 hk
            exact .inr ⟨n, .head _, rfl⟩
      · exact .inr ⟨m, List.mem_cons_of_mem n hm, rfl⟩
  rcases hfold [] ms k hk with hk | hk
  · cases hk
  · exact hk

/-- The names of the sources as texts. -/
def sourceTexts (ms : List Mapping) : List String := (sources ms).map fun k => k.text?.getD ""

theorem sourceNames_eq (h : ∀ m ∈ ms, ∃ q, m.At q) :
    sourceNames ms = (sourceTexts ms).map Json.str := by
  rw [sourceNames, sourceTexts, List.map_map]
  refine List.map_congr_left fun k hk => ?_
  have hjson (m : Mapping) (hm : m ∈ ms) : m.spelling = .str (m.source.text?.getD "") := by
    obtain ⟨q, hq⟩ := h m hm
    obtain ⟨s, hs⟩ := hq.source
    rw [hq.spelling, hs]
    rfl
  obtain ⟨m, hm, rfl⟩ := exists_of_mem_sources hk
  cases hfind : ms.find? (·.source = m.source) with
  | none => simpa using List.find?_eq_none.1 hfind m hm
  | some n =>
    have hn : n.source = m.source := by simpa using List.find?_some hfind
    rw [Option.map_some, Option.getD_some, hjson n (List.mem_of_find?_eq_some hfind), hn]
    rfl

theorem listed_of_mem (hm : m ∈ ms) : m.Listed (sources ms) (sourceTexts ms) := by
  have hlt := List.idxOf_lt_length_of_mem (mem_sources hm)
  rw [Mapping.Listed, sourceTexts, List.getElem?_map, List.getElem?_eq_getElem hlt,
    List.getElem_idxOf hlt]
  rfl

/-- What is read from the text of the mappings of fragments is these mappings. -/
theorem readMappings?_encodeMappings (h : ofFragments? {} fs = some ms) :
    readMappings? (sourceTexts ms) (encodeMappings ms) = some (ms.map Mapping.entry) := by
  obtain ⟨hat, hpairwise⟩ := ofFragments?_ordered h
  have hfirst : ∀ m ∈ ms, 1 ≤ m.line := by
    intro m hm
    obtain ⟨q, hq, hpq⟩ := hat m hm
    rw [hq.line]
    unfold Position.Precedes at hpq
    simp only at hpq
    omega
  rw [readMappings?, encodeMappings, List.mergeSort_of_pairwise (hpairwise.imp And.left),
    String.toList_ofList]
  exact readFrom?_encodeFrom (c := {}) rfl (fun _ => rfl) (by decide) hfirst
    (hpairwise.imp And.right) fun m hm => listed_of_mem hm

theorem toJson_get (ms : List Mapping) (file root : Json) :
    (toJson ms file root).get "version" = .int 3 ∧
      (toJson ms file root).get "sources" = .arr (sourceNames ms) ∧
      (toJson ms file root).get "mappings" = .str (encodeMappings ms) := by
  cases hfile : file.isNull <;> cases hroot : root.isNull <;>
    simp [toJson, Json.get, Json.get?, hfile, hroot, List.lookup_cons]

/-! ### What the entries lead to -/

/-- An entry leads from the end of a text to a location: the generated position is told by the line
breaks of the text, the source is the last part of the name of the file, and the column counts from
zero. -/
structure Entry.Leads (e : Entry) (before : List Char) (l : Location) : Prop where
  line : e.line = before.count '\n' + 1
  column : e.column = (before.reverse.takeWhile (· ≠ '\n')).length
  origin : ∃ o, e.origin = some o ∧ o.name = none ∧ l.line.whole? = some o.line ∧
    (∃ file dir, l.file = .str file ∧ file.toList = dir ++ o.source.toList ∧
      '/' ∉ o.source.toList ∧ (dir = [] ∨ dir.getLast? = some '/')) ∧
    ((∃ n, l.column.whole? = some n ∧ o.column = max (n - 1) 0) ∨
      ∃ x, l.column = .data (.float x) ∧ x - 1.0 < 0.0 ∧ o.column = 0)

theorem sourceColumn?_eq_some {v : Value} {column : Int} (h : sourceColumn? v = some column) :
    (∃ n, v.whole? = some n ∧ column = max (n - 1) 0) ∨
      ∃ x, v = .data (.float x) ∧ x - 1.0 < 0.0 ∧ column = 0 := by
  unfold sourceColumn? at h
  split at h
  · rename_i x
    split at h
    · rename_i hx
      exact .inr ⟨x, rfl, hx, (Option.some.inj h).symm⟩
    · cases h
  · obtain ⟨n, hn, h⟩ := Option.bind_eq_some_iff.1 h
    exact .inl ⟨n, hn, (Option.some.inj h).symm⟩

theorem Mapping.entry_leads {before : List Char}
    (h : Mapping.ofLocation? (({} : Position).after before) l = some m) :
    m.entry.Leads before l := by
  obtain ⟨hat, file, hfile, hsource, hline, hcolumn⟩ := ofLocation?_eq_some h
  rw [Position.after_eq] at hat
  refine ⟨?_, hat.column, _, rfl, rfl, hline, ?_, sourceColumn?_eq_some hcolumn⟩
  · rw [Mapping.entry, hat.line]
    rfl
  · obtain ⟨dir, hdir⟩ := baseName_spec file
    rw [hsource]
    exact ⟨file, dir, hfile, hdir⟩

end SourceMap

/-- The fragments that stand for a place in the source: the text before each, and the place. -/
def Fragment.placed (before : List Char) : List Fragment → List (List Char × Location)
  | [] => []
  | f :: rest =>
    (f.location.map fun l => (before, l)).toList ++
      placed (before ++ (f.value.text?.getD "").toList) rest

theorem Fragment.map_placed (before : List Char) (fs : List Fragment) :
    (Fragment.placed before fs).map Prod.snd = fs.filterMap Fragment.location := by
  induction fs generalizing before with
  | nil => rfl
  | cons f fs ih =>
    rw [placed, List.map_append, ih, List.filterMap_cons]
    cases f.location <;> rfl

theorem Fragment.text?_cons {f : Fragment} (h : Fragment.text? (f :: fs) = some code) :
    ∃ text rest, f.value = .str text ∧ Fragment.text? fs = some rest ∧ code = text ++ rest := by
  simp only [Fragment.text?, List.mapM_cons, Option.bind_eq_bind, Option.bind_eq_some_iff,
    Option.pure_def, Option.some.injEq] at h
  obtain ⟨_, ⟨text, htext, texts, htexts, rfl⟩, rfl⟩ := h
  refine ⟨text, String.join texts, ?_, ?_, ?_⟩
  · unfold Value.text? at htext
    split at htext
    · rename_i hv
      rw [hv, Option.some.inj htext]
    · cases htext
  · simp [Fragment.text?, htexts]
  · simp [String.join_cons]

/-- A place that can be mapped: its file is a text, and its numbers are whole. -/
def Location.IsMappable (l : Location) : Prop :=
  (∃ file, l.file.text? = some file) ∧ (∃ line, l.line.whole? = some line) ∧
    ∃ column, SourceMap.sourceColumn? l.column = some column

theorem SourceMap.ofLocation?_isSome_iff (p : Position) (l : Location) :
    (∃ m, Mapping.ofLocation? p l = some m) ↔ l.IsMappable := by
  simp only [Mapping.ofLocation?, Location.IsMappable, Option.bind_eq_bind,
    Option.bind_eq_some_iff, Option.pure_def, Option.some.injEq]
  constructor
  · rintro ⟨_, file, hfile, line, hline, column, hcolumn, _⟩
    exact ⟨⟨file, hfile⟩, ⟨line, hline⟩, ⟨column, hcolumn⟩⟩
  · rintro ⟨⟨file, hfile⟩, ⟨line, hline⟩, ⟨column, hcolumn⟩⟩
    exact ⟨_, file, hfile, line, hline, column, hcolumn, rfl⟩

theorem SourceMap.ofFragments?_isSome_iff {text : String} (htext : Fragment.text? fs = some text) :
    (∃ ms, ofFragments? p fs = some ms) ↔ ∀ f ∈ fs, ∀ l, f.location = some l → l.IsMappable := by
  induction fs generalizing p text with
  | nil => exact ⟨fun _ => nofun, fun _ => ⟨[], rfl⟩⟩
  | cons f fs ih =>
    obtain ⟨s, rest, hvalue, hrest, _⟩ := Fragment.text?_cons htext
    rw [List.forall_mem_cons, ← ih (p := p.after s.toList) hrest]
    constructor
    · rintro ⟨ms, hms⟩
      obtain ⟨q, later, hq, hlater, hhere⟩ := ofFragments?_cons hms
      rw [hvalue, Position.afterValue?, Option.some.injEq] at hq
      subst hq
      refine ⟨fun l hl => ?_, later, hlater⟩
      obtain ⟨hnone, _⟩ | ⟨l', m, hl', hm, _⟩ := hhere
      · rw [hnone] at hl
        cases hl
      · obtain rfl := Option.mem_unique hl' hl
        exact (ofLocation?_isSome_iff p l').1 ⟨m, hm⟩
    · rintro ⟨hhere, later, hlater⟩
      cases hl : f.location with
      | none => exact ⟨later, by simp [ofFragments?, hl, hvalue, Position.afterValue?, hlater]⟩
      | some l =>
        obtain ⟨m, hm⟩ := (ofLocation?_isSome_iff p l).2 (hhere l hl)
        exact ⟨m :: later,
          by simp [ofFragments?, hl, hm, hvalue, Position.afterValue?, hlater]⟩

theorem SourceMap.ofFragments?_placed {ms : List Mapping} (before : List Char)
    (hcode : Fragment.text? fs = some code)
    (h : ofFragments? (({} : Position).after before) fs = some ms) :
    List.Forall₂ (fun m q => m.entry.Leads q.1 q.2 ∧ q.1 <+: before ++ code.toList) ms
      (Fragment.placed before fs) := by
  induction fs generalizing before ms code with
  | nil =>
    cases h
    exact .nil
  | cons f fs ih =>
    obtain ⟨text, rest, hvalue, hrest, rfl⟩ := Fragment.text?_cons hcode
    obtain ⟨q, later, hq, hlater, hms⟩ := ofFragments?_cons h
    rw [hvalue, Position.afterValue?, Option.some.injEq, ← Position.after_append] at hq
    subst hq
    have hlater := ih _ hrest hlater
    rw [List.append_assoc, ← String.toList_append] at hlater
    rw [Fragment.placed, hvalue]
    rcases hms with ⟨hl, rfl⟩ | ⟨l, m, hl, hm, rfl⟩
    · rw [hl]
      exact hlater
    · rw [hl]
      exact .cons ⟨Mapping.entry_leads hm, List.prefix_append ..⟩ hlater

namespace Compiler

variable {c : Compiler} {symbols : Symbols} {u : CompileUnit}

/-- The code of a unit is made of fragments: the instructions of the walk through its program have
put them into the first buffer. -/
def IsMadeOf (c : Compiler) (symbols : Symbols) (u : CompileUnit) (fragments : List Fragment) :
    Prop :=
  ∃ indenter layout source, c.indenter? = some indenter ∧ u.source? = some source ∧
    ({ format := c.format, indenter } : Layout).run
      (c.outcome symbols u source none).2.trace.toList = .ok layout ∧
    fragments = (layout.fragments 0).toList

theorem isMadeOf_of_compile {r : CompileResult} (h : (c.compile symbols u).1 = .ok r) :
    ∃ source fragments, u.source? = some source ∧ c.IsMadeOf symbols u fragments ∧
      Laid c.format (fun _ => True) ((c.outcome symbols u source none).2.written 0) fragments ∧
      c.output? u fragments = some (r.code, r.sourceMap) := by
  obtain ⟨indenter, layout, source, hindenter, hsource, hrun, -, -, h⟩ := run_of_compile h
  exact ⟨source, _, hsource, ⟨indenter, layout, source, hindenter, hsource, hrun, rfl⟩,
    Layout.laid_of_run trivial (fun _ _ => trivial) hrun 0, output?_of_finish h⟩

theorem output?_sourceMap {fragments : List Fragment} {sourceMap : Option String}
    (hmap : c.options.sourceMap = true) (h : c.output? u fragments = some (code, sourceMap)) :
    ∃ text mappings name, Fragment.text? fragments = some text ∧ text.toList <+: code.toList ∧
      SourceMap.ofFragments? {} fragments = some mappings ∧
      sourceMap = some (SourceMap.toJson mappings name c.options.sourceRoot).write := by
  simp only [output?, hmap, Option.bind_eq_bind, Option.bind_eq_some_iff, Bool.not_true,
    Bool.false_eq_true, if_false, Option.pure_def, Option.some.injEq, Prod.mk.injEq] at h
  obtain ⟨text, htext, name, _, mappings, hmappings, shown, _, rfl, rfl⟩ := h
  refine ⟨text, mappings, name, htext, ?_, hmappings, rfl⟩
  rw [String.toList_append]
  exact (prefix_terminated text).trans (List.prefix_append ..)

/-- The source map of a unit has exactly one entry for each instruction that is written for a place
in the source and stands in the first buffer when all is spliced and taken back. The entries are in
the order of the code, and each leads from where that begins which the instruction has written to
the place. -/
theorem compile_sourceMap_exact {r : CompileResult} (hmap : c.options.sourceMap = true)
    (hr : (c.compile symbols u).1 = .ok r) :
    ∃ source is fragments text map sources mappings entries, u.source? = some source ∧
      is = (c.outcome symbols u source none).2.written 0 ∧ c.IsMadeOf symbols u fragments ∧
      Laid c.format (fun _ => True) is fragments ∧
      (Fragment.placed [] fragments).map Prod.snd = is.filterMap Instr.place? ∧
      Fragment.text? fragments = some text ∧ text.toList <+: r.code.toList ∧
      r.sourceMap = some (Json.write map) ∧ map.get "version" = .int 3 ∧
      map.get "sources" = .arr (sources.map .str) ∧ map.get "mappings" = .str mappings ∧
      SourceMap.readMappings? sources mappings = some entries ∧
      List.Forall₂ (fun e q => e.Leads q.1 q.2 ∧ q.1 <+: r.code.toList) entries
        (Fragment.placed [] fragments) := by
  obtain ⟨source, fragments, hsource, hfragments, hlaid, houtput⟩ := isMadeOf_of_compile hr
  obtain ⟨text, mappings, name, htext, hcode, hmappings, hwritten⟩ := output?_sourceMap hmap houtput
  have hat := (SourceMap.ofFragments?_ordered hmappings).1
  have hleads := SourceMap.ofFragments?_placed [] htext hmappings
  refine ⟨source, _, fragments, text, _, SourceMap.sourceTexts mappings,
    SourceMap.encodeMappings mappings, mappings.map SourceMap.Mapping.entry, hsource,
    rfl, hfragments,
    hlaid, ?_, htext, hcode, hwritten, ?_, ?_, ?_, SourceMap.readMappings?_encodeMappings
      hmappings, ?_⟩
  · rw [Fragment.map_placed, hlaid.filterMap_place?]
  · exact (SourceMap.toJson_get ..).1
  · rw [← SourceMap.sourceNames_eq fun m hm => (hat m hm).imp fun _ => And.left]
    exact (SourceMap.toJson_get ..).2.1
  · exact (SourceMap.toJson_get ..).2.2
  · rw [List.forall₂_map_left_iff]
    exact hleads.imp fun m q h => ⟨h.1, h.2.trans hcode⟩

/-- The unit of `alert(text)` in the third line of a file. -/
def placedCall : CompileUnit where
  program :=
    let node (type : NodeType) (column : Int) (fields : List (String × Value)) : Value :=
      .tree { type, span := { location := some ⟨.str "src/main.j", .int 3, .int column⟩ }, fields }
    let call := node .callExpression 5 [("callee", node .identifier 5 [("name", .str "alert")]),
      ("arguments", .list [node .identifier 11 [("name", .str "text")]])]
    node .program 1 [("body", .list [node .expressionStatement 5 [("expression", call)]])]
  file := .str "src/main.j"

def mapping : Compiler where
  options := { sourceMap := true }
  format := {}
  predefined := {}

theorem compile_placedCall_exact : ∃ r, (mapping.compile {} placedCall).1 = .ok r ∧
    ∃ is fragments map sources mappings entries,
      is = (mapping.outcome {} placedCall none none).2.written 0 ∧
      mapping.IsMadeOf {} placedCall fragments ∧ Laid mapping.format (fun _ => True) is fragments ∧
      r.sourceMap = some (Json.write map) ∧ map.get "sources" = .arr (sources.map .str) ∧
      map.get "mappings" = .str mappings ∧
      SourceMap.readMappings? sources mappings = some entries ∧ entries.length = 2 ∧
      List.Forall₂ (fun e q => e.Leads q.1 q.2 ∧ q.1 <+: r.code.toList) entries
        (Fragment.placed [] fragments) := by
  obtain ⟨r, hr, -⟩ := exists_ok_of_map (f := CompileResult.success) (b := true)
    (x := (mapping.compile {} placedCall).1) (by decide +kernel)
  obtain ⟨source, is, fragments, _, map, sources, mappings, entries, hsource, his, hmade, hlaid,
    hplaces, _, _, hmap, _, hsources, hmappings, hread, hleads⟩ := compile_sourceMap_exact rfl hr
  obtain rfl : none = source := Option.some.inj hsource
  have hlength : entries.length = 2 := by
    rw [hleads.length_eq, ← List.length_map Prod.snd, hplaces, his]
    decide +kernel
  exact ⟨r, hr, is, fragments, map, sources, mappings, entries, his, hmade, hlaid, hmap, hsources,
    hmappings, hread, hlength, hleads⟩

end Compiler

end ObjectiveJ
