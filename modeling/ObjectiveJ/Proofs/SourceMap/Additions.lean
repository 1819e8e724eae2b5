import ObjectiveJ.Proofs.SourceMap.Exact

/-!
# Mappings that are added in any order

The text of mappings is made of lines, which end at semicolons, and a line is made of segments,
which end at commas. A segment is four numbers: the generated column, which is relative to the
segment before on the same line, and the number of the source, the line and the column in it, which
are relative to the last segment of all. Whatever mappings are added, and in whatever order, what is
read in this way is the mappings in the order of their generated positions, those of one position as
they were added (`readLines?_additions`).
-/

namespace ObjectiveJ.SourceMap

/-! ### Lines and segments -/

/-- What segments say one after another, and the base after them. -/
def readSegments? (sources : List String) (b : Base) : List (List Char) → Option (List Entry × Base)
  | [] => some ([], b)
  | segment :: rest => do
    let (es, next) ← b.segment? sources segment
    let (more, last) ← readSegments? sources next rest
    return (es ++ more, last)

def readLines? (sources : List String) (b : Base) : List (List Char) → Option (List Entry)
  | [] => some []
  | line :: rest => do
    let (es, next) ← readSegments? sources b (Text.split ',' line)
    return es ++ (← readLines? sources next.nextLine rest)

section

variable {sources : List String} {b : Base}

/-- A text is read by its lines and segments, after the segment begun. -/
theorem readFrom?_eq_readSegments? {begun cs line segment : List Char}
    {lines segments : List (List Char)}
    (hlines : Text.split ';' cs = line :: lines)
    (hsegments : Text.split ',' line = segment :: segments) :
    readFrom? sources b begun cs = (readSegments? sources b ((begun ++ segment) :: segments)).bind
      fun (es, next) => (readLines? sources next.nextLine lines).map (es ++ ·) := by
  induction cs generalizing b begun line segment lines segments with
  | nil =>
    obtain ⟨rfl, rfl⟩ := List.cons.inj hlines
    obtain ⟨rfl, rfl⟩ := List.cons.inj hsegments
    rw [List.append_nil, readFrom?, readSegments?]
    cases b.segment? sources begun with
    | none => rfl
    | some e => simp [readSegments?, readLines?]
  | cons c cs ih =>
    obtain ⟨line', lines', hlines'⟩ := List.exists_cons_of_ne_nil (Text.split_ne_nil ';' cs)
    obtain ⟨segment', segments', hsegments'⟩ :=
      List.exists_cons_of_ne_nil (Text.split_ne_nil ',' line')
    by_cases hsemicolon : c = ';'
    · subst hsemicolon
      rw [Text.split, if_pos rfl, hlines'] at hlines
      obtain ⟨rfl, rfl⟩ := List.cons.inj hlines
      obtain ⟨rfl, rfl⟩ := List.cons.inj hsegments
      rw [List.append_nil, readSegments?]
      cases hbegun : b.segment? sources begun with
      | none => rw [readFrom?, if_pos rfl, hbegun]; rfl
      | some e =>
        rw [readFrom?_semicolon hbegun, ih hlines' hsegments']
        simp [readSegments?, readLines?, hsegments', Option.map_eq_bind]
    · rw [Text.split, if_neg hsemicolon, hlines'] at hlines
      obtain ⟨rfl, rfl⟩ := List.cons.inj hlines
      by_cases hcomma : c = ','
      · subst hcomma
        rw [Text.split, if_pos rfl, hsegments'] at hsegments
        obtain ⟨rfl, rfl⟩ := List.cons.inj hsegments
        rw [List.append_nil, readSegments?]
        cases hbegun : b.segment? sources begun with
        | none => rw [readFrom?, if_neg (by decide), if_pos rfl, hbegun]; rfl
        | some e =>
          rw [readFrom?_comma hbegun, ih hlines' hsegments']
          simp [Option.map_eq_bind, Option.bind_assoc]
      · rw [Text.split, if_neg hcomma, hsegments'] at hsegments
        obtain ⟨rfl, rfl⟩ := List.cons.inj hsegments
        rw [readFrom?, if_neg hsemicolon, if_neg hcomma, ih hlines' hsegments', List.append_assoc,
          List.singleton_append]

theorem readMappings?_eq_readLines? (sources : List String) (text : String) :
    readMappings? sources text = readLines? sources {} (Text.split ';' text.toList) := by
  obtain ⟨line, lines, hlines⟩ := List.exists_cons_of_ne_nil (Text.split_ne_nil ';' text.toList)
  obtain ⟨segment, segments, hsegments⟩ := List.exists_cons_of_ne_nil (Text.split_ne_nil ',' line)
  rw [readMappings?, readFrom?_eq_readSegments? hlines hsegments, hlines, readLines?, hsegments]
  simp [Option.map_eq_bind]

end

/-! ### Additions -/

/-- A mapping that is added: a generated position, and a place in a source of some name. -/
structure Addition where
  line : Int
  column : Int
  source : String
  sourceLine : Int
  sourceColumn : Int

namespace Addition

def mapping (a : Addition) : Mapping where
  place := .number a.line
  column := a.column
  source := .text a.source
  sourceLine := a.sourceLine
  sourceColumn := a.sourceColumn

def entry (a : Addition) : Entry :=
  ⟨a.line.toNat, a.column, some ⟨a.source, a.sourceLine, a.sourceColumn, none⟩⟩

/-- The order of generated positions. -/
def Precedes (a b : Addition) : Prop := a.line < b.line ∨ a.line = b.line ∧ a.column ≤ b.column

instance (a b : Addition) : Decidable (a.Precedes b) := inferInstanceAs (Decidable (_ ∨ _))

def isAt (line column : Int) (a : Addition) : Bool := a.line = line ∧ a.column = column

def sorted (as : List Addition) : List Addition := as.mergeSort fun a b => a.Precedes b

variable {as : List Addition}

theorem trans_precedes (a b c : Addition) (hab : decide (a.Precedes b) = true)
    (hbc : decide (b.Precedes c) = true) : decide (a.Precedes c) = true := by
  rw [decide_eq_true_iff, Precedes] at *
  omega

theorem total_precedes (a b : Addition) :
    (decide (a.Precedes b) || decide (b.Precedes a)) = true := by
  rw [Bool.or_eq_true, decide_eq_true_iff, decide_eq_true_iff, Precedes, Precedes]
  omega

theorem pairwise_sorted (as : List Addition) : (sorted as).Pairwise Precedes :=
  (List.pairwise_mergeSort trans_precedes total_precedes as).imp of_decide_eq_true

/-- Additions for one position stay in their order. -/
theorem filter_sorted (as : List Addition) (line column : Int) :
    (sorted as).filter (isAt line column) = as.filter (isAt line column) := by
  have hsame : (as.filter (isAt line column)).Pairwise fun a b => decide (a.Precedes b) = true := by
    refine List.pairwise_of_forall_mem_list fun a ha b hb => ?_
    have ha := (List.mem_filter.1 ha).2
    have hb := (List.mem_filter.1 hb).2
    rw [isAt, decide_eq_true_iff] at ha hb
    rw [decide_eq_true_iff, Precedes]
    omega
  have hsub : (as.filter (isAt line column)).Sublist ((sorted as).filter (isAt line column)) := by
    have h := (List.sublist_mergeSort trans_precedes total_precedes hsame
      List.filter_sublist).filter (isAt line column)
    simp only [List.filter_filter, Bool.and_self] at h
    exact h
  exact (hsub.eq_of_length ((List.mergeSort_perm as _).filter _).length_eq.symm).symm

/-- The mappings are written in this order. -/
theorem map_mapping_sorted (as : List Addition) :
    (sorted as).map mapping = (as.map mapping).mergeSort Mapping.before := by
  refine List.map_mergeSort fun a _ b _ => ?_
  rw [Mapping.before]
  change _ = if Key.number a.line = Key.number b.line then decide (a.column ≤ b.column) else
    decide (a.line ≤ b.line)
  simp only [Key.number.injEq]
  split
  · refine decide_eq_decide.2 ?_
    rw [Precedes]
    omega
  · refine decide_eq_decide.2 ?_
    rw [Precedes]
    omega

/-! ### Sources -/

theorem sources_eq (as : List Addition) :
    sources (as.map mapping) = ((as.map source).eraseDups).map Key.text := by
  induction as using List.reverseRecOn with
  | nil => rfl
  | append_singleton as a ih =>
    have hstep : sources ((as ++ [a]).map mapping) =
        if Key.text a.source ∈ sources (as.map mapping) then sources (as.map mapping)
        else sources (as.map mapping) ++ [.text a.source] := by
      rw [sources, List.map_append, List.foldl_append]
      rfl
    rw [hstep, ih, List.map_append, List.eraseDups_append, List.map_append]
    generalize as.map source = used
    by_cases hused : a.source ∈ used
    · simp [hused, List.removeAll]
    · simp [hused, List.removeAll, List.eraseDups_cons]

theorem sourceTexts_eq (as : List Addition) :
    sourceTexts (as.map mapping) = (as.map source).eraseDups := by
  rw [sourceTexts, sources_eq, List.map_map]
  exact List.map_id _

theorem sourceNames_eq_map (as : List Addition) :
    sourceNames (as.map mapping) = ((as.map source).eraseDups).map Json.str := by
  rw [sourceNames, sources_eq, List.map_map]
  refine List.map_congr_left fun name _ => ?_
  rw [Function.comp_apply]
  cases hfind : (as.map mapping).find? (·.source = .text name) with
  | none => rfl
  | some m =>
    obtain ⟨a, _, rfl⟩ := List.mem_map.1 (List.mem_of_find?_eq_some hfind)
    have hname : a.mapping.source = .text name := by simpa using List.find?_some hfind
    rw [← Key.text.inj hname]
    rfl

/-- Whatever is added, if no generated line is before the first one: the sources are the names that
are used, each once, in the order of their first use. Read by lines and segments with these sources,
the text of the mappings says what was added, in the order of generated positions and, for one
position, in the order in which it was added. -/
theorem readLines?_additions (as : List Addition) (h : ∀ a ∈ as, 1 ≤ a.line) :
    ∃ ordered : List Addition, ordered.Pairwise Precedes ∧
      (∀ line column, ordered.filter (isAt line column) = as.filter (isAt line column)) ∧
      ∃ names : List String, names = (as.map source).eraseDups ∧
        sourceNames (as.map mapping) = names.map Json.str ∧
        readLines? names {} (Text.split ';' (encodeMappings (as.map mapping)).toList) =
          some (ordered.map entry) := by
  refine ⟨sorted as, pairwise_sorted as, filter_sorted as, _, rfl, sourceNames_eq_map as, ?_⟩
  have hmem {m : Mapping} (hm : m ∈ (sorted as).map mapping) : m ∈ as.map mapping := by
    rw [map_mapping_sorted] at hm
    exact (List.mergeSort_perm _ _).mem_iff.1 hm
  have hordered : ((sorted as).map mapping).Pairwise fun m n => m.line ≤ n.line := by
    refine List.pairwise_map.2 ((pairwise_sorted as).imp fun {a b} hab => ?_)
    change a.line ≤ b.line
    rw [Precedes] at hab
    omega
  have hlines : ∀ m ∈ (sorted as).map mapping, (1 : Int) ≤ m.line := by
    intro m hm
    obtain ⟨a, ha, rfl⟩ := List.mem_map.1 (hmem hm)
    exact h a ha
  rw [← readMappings?_eq_readLines?, readMappings?, encodeMappings, String.toList_ofList,
    ← map_mapping_sorted, ← sourceTexts_eq]
  have hread := readFrom?_encodeFrom (c := {}) rfl (fun _ => rfl) (by decide) hlines hordered
    fun m hm => listed_of_mem (hmem hm)
  exact hread.trans (by rw [List.nil_append, List.map_map]; rfl)

/-- Additions for three lines, one of which gets nothing, from two sources. -/
def scattered : List Addition := [
  ⟨3, -2, "b.j", 7, 40⟩, ⟨1, 10, "a.j", -5, 0⟩, ⟨1, 2, "b.j", 1, 3⟩, ⟨3, -2, "a.j", 2, 1⟩]

theorem readLines?_scattered : ∃ ordered : List Addition, ordered.Pairwise Precedes ∧
    (∀ line column, ordered.filter (isAt line column) = scattered.filter (isAt line column)) ∧
    ∃ names : List String, names = (scattered.map source).eraseDups ∧
      sourceNames (scattered.map mapping) = names.map Json.str ∧
      readLines? names {} (Text.split ';' (encodeMappings (scattered.map mapping)).toList) =
        some (ordered.map entry) :=
  readLines?_additions scattered (by decide)

end Addition

end ObjectiveJ.SourceMap
