import Mathlib.Data.Nat.Log
import ObjectiveJ.SourceMap.Mapping

/-!
# Reading source maps

How the text of mappings is read, by the rules of version 3 of source maps: a semicolon ends a
generated line, a comma ends a segment, and a segment is one, four or five numbers relative to those
before them. What is read from the text of mappings in order is these mappings
(`readFrom?_encodeFrom`).
-/

namespace ObjectiveJ.SourceMap

/-! ### Numbers -/

theorem unfold_fold (value : Int) : unfold (fold value) = value := by
  unfold fold unfold
  split <;> omega

theorem groups_lt (n : Nat) : ∀ d ∈ groups n, d < 64 := by
  induction n using groups.induct with
  | case1 n h =>
    rw [groups, if_pos h]
    simpa using (by omega : n < 64)
  | case2 n h ih =>
    rw [groups, if_neg h]
    intro d hd
    rcases List.mem_cons.1 hd with rfl | hd
    · omega
    · exact ih d hd

theorem groups_ne_nil (n : Nat) : groups n ≠ [] := by
  rw [groups]
  split <;> simp

/-- The groups of a number are read as this number, whatever follows. -/
theorem ungroup_groups (n value weight : Nat) (rest : List Nat) :
    ungroup value weight (groups n ++ rest) = unfold (value + n * weight) :: ungroup 0 1 rest := by
  induction n using groups.induct generalizing value weight with
  | case1 n h =>
    rw [groups, if_pos h, List.singleton_append, ungroup, if_neg (by omega), Nat.mod_eq_of_lt h]
  | case2 n h ih =>
    have hgroup : (n % 32 + 32) % 32 = n % 32 := by omega
    have hvalue : value + n % 32 * weight + n / 32 * (weight * 32) = value + n * weight := by
      have hn : n * weight = (n % 32 + n / 32 * 32) * weight := by
        rw [Nat.mul_comm (n / 32), Nat.mod_add_div]
      rw [hn, Nat.add_mul, Nat.mul_assoc (n / 32), Nat.mul_comm 32, Nat.add_assoc]
    rw [groups, if_neg h, List.cons_append, ungroup, if_pos (by omega), hgroup, ih, hvalue]

theorem digitValue?_digit {n : Nat} (h : n < 64) : digitValue? [digit n] = some n := by
  have hall : ∀ n < 64, digitValue? [digit n] = some n := by decide +kernel
  exact hall n h

theorem decode_map_digit {ds : List Nat} (h : ∀ d ∈ ds, d < 64) :
    decode (ds.map digit) = some (ungroup 0 1 ds) := by
  have hdigits : (ds.map digit).map (fun c => [c]) = ds.map fun d => [digit d] := by simp
  have hvalues : (ds.map fun d => [digit d]).mapM digitValue? = some ds := by
    induction ds with
    | nil => rfl
    | cons d ds ih =>
      rw [List.map_cons, List.mapM_cons, digitValue?_digit (h d (.head _)),
        ih (fun e he => h e (.tail _ he)) (by simp)]
      rfl
  rw [decode, decodeDigits?, hdigits, hvalues]
  rfl

theorem digit_mem_alphabet {n : Nat} (h : n < 64) : digit n ∈ alphabet := by
  have hall : ∀ n < 64, digit n ∈ alphabet := by decide +kernel
  exact hall n h

/-- Whether a character ends a segment. -/
def isSeparator (c : Char) : Prop := c = ';' ∨ c = ','

theorem not_isSeparator_digit {n : Nat} (h : n < 64) : ¬ isSeparator (digit n) := by
  have hall : ∀ n < 64, digit n ≠ ';' ∧ digit n ≠ ',' := by decide +kernel
  rintro (heq | heq)
  · exact (hall n h).1 heq
  · exact (hall n h).2 heq

/-! ### Runs of numbers -/

/-- A group for each five bits of a number, and one for zero. -/
theorem length_groups (n : Nat) : (groups n).length = Nat.log 32 n + 1 := by
  induction n using groups.induct with
  | case1 n h =>
    rw [groups, if_pos h, Nat.log_of_lt h]
    rfl
  | case2 n h ih =>
    rw [groups, if_neg h, List.length_cons, ih,
      Nat.log_of_one_lt_of_le (by decide) (Nat.le_of_not_lt h)]

theorem ungroup_flatMap_groups (values : List Int) :
    ungroup 0 1 (values.flatMap fun value => groups (fold value)) = values := by
  induction values with
  | nil => rfl
  | cons value rest ih =>
    rw [List.flatMap_cons, ungroup_groups, ih, Nat.mul_one, Nat.zero_add, unfold_fold]

/-- Numbers of any size that are written one after another are read as they were. Each of them takes
as many turns as it has groups of five bits, and a turn writes a digit, which never is a separator.
-/
theorem decode_flatMap_encode (values : List Int) : decode (values.flatMap encode) = some values ∧
    (∀ value, (encode value).length = Nat.log 32 (fold value) + 1) ∧
    ∀ c ∈ values.flatMap encode, c ∈ alphabet ∧ ¬ isSeparator c := by
  have hdigits : values.flatMap encode =
      (values.flatMap fun value => groups (fold value)).map digit := List.map_flatMap.symm
  have hlt : ∀ d ∈ values.flatMap fun value => groups (fold value), d < 64 := by
    intro d hd
    obtain ⟨value, _, hd⟩ := List.mem_flatMap.1 hd
    exact groups_lt _ d hd
  refine ⟨?_, fun value => ?_, fun c hc => ?_⟩
  · rw [hdigits, decode_map_digit hlt, ungroup_flatMap_groups]
  · rw [encode, List.length_map, length_groups]
  · rw [hdigits] at hc
    obtain ⟨d, hd, rfl⟩ := List.mem_map.1 hc
    exact ⟨digit_mem_alphabet (hlt d hd), not_isSeparator_digit (hlt d hd)⟩

/-! ### Segments -/

variable {known : List Key} {c : Cursor} {m : Mapping}

theorem segment_eq (known : List Key) (c : Cursor) (m : Mapping) : ∃ ds : List Nat,
    segment known c m = ds.map digit ∧ ds ≠ [] ∧ (∀ d ∈ ds, d < 64) ∧ ungroup 0 1 ds =
      [m.column - (if c.line < m.line then 0 else c.column), known.idxOf m.source - c.source,
        m.sourceLine - 1 - c.sourceLine, m.sourceColumn - c.sourceColumn] := by
  refine ⟨groups (fold (m.column - (if c.line < m.line then 0 else c.column))) ++
    (groups (fold (known.idxOf m.source - c.source)) ++
      (groups (fold (m.sourceLine - 1 - c.sourceLine)) ++
        (groups (fold (m.sourceColumn - c.sourceColumn)) ++ []))), ?_, ?_, ?_, ?_⟩
  · simp [segment, encode]
  · intro hnil
    exact groups_ne_nil _ (List.append_eq_nil_iff.1 hnil).1
  · simp only [List.append_nil, List.mem_append]
    rintro d (hd | hd | hd | hd)
    all_goals exact groups_lt _ d hd
  · simp only [ungroup_groups, Nat.zero_add, Nat.mul_one, unfold_fold, ungroup]

theorem decode_segment : decode (segment known c m) =
    some [m.column - (if c.line < m.line then 0 else c.column), known.idxOf m.source - c.source,
      m.sourceLine - 1 - c.sourceLine, m.sourceColumn - c.sourceColumn] := by
  obtain ⟨ds, hds, _, hlt, hnumbers⟩ := segment_eq known c m
  rw [hds, decode_map_digit hlt, hnumbers]

theorem not_isSeparator_of_mem_segment : ∀ d ∈ segment known c m, ¬ isSeparator d := by
  obtain ⟨ds, hds, _, hlt, _⟩ := segment_eq known c m
  intro d hd
  rw [hds] at hd
  obtain ⟨n, hn, rfl⟩ := List.mem_map.1 hd
  exact not_isSeparator_digit (hlt n hn)

theorem segment_ne_nil : segment known c m ≠ [] := by
  obtain ⟨ds, hds, hne, _⟩ := segment_eq known c m
  rw [hds]
  simpa using hne

/-! ### The rules of reading -/

/-- A place in a source, whose lines count from one and whose columns count from zero, and the
number of a name. -/
structure Origin where
  source : String
  line : Int
  column : Int
  name : Option Int := none
  deriving DecidableEq, Repr

/-- A segment as it is read: a position in the generated text, whose lines count from one and whose
columns count from zero, and where it comes from. -/
structure Entry where
  line : Nat
  column : Int
  origin : Option Origin
  deriving DecidableEq, Repr

/-- What the numbers of a segment are relative to. -/
structure Base where
  line : Nat := 1
  column : Int := 0
  source : Int := 0
  sourceLine : Int := 1
  sourceColumn : Int := 0
  name : Int := 0

namespace Base

def move (b : Base) (column source line sourceColumn : Int) : Base :=
  { b with
    column := b.column + column, source := b.source + source
    sourceLine := b.sourceLine + line, sourceColumn := b.sourceColumn + sourceColumn }

def origin? (sources : List String) (b : Base) (name : Option Int) : Option Origin :=
  if b.source < 0 then none
  else (sources[b.source.toNat]?).map fun source => ⟨source, b.sourceLine, b.sourceColumn, name⟩

/-- What the numbers of a segment say, and the base for the next one. -/
def entry? (sources : List String) (b : Base) : List Int → Option (Entry × Base)
  | [column] =>
    some (⟨b.line, b.column + column, none⟩, { b with column := b.column + column })
  | [column, source, line, sourceColumn] => do
    let next := b.move column source line sourceColumn
    return (⟨next.line, next.column, some (← next.origin? sources none)⟩, next)
  | [column, source, line, sourceColumn, name] => do
    let next := { b.move column source line sourceColumn with name := b.name + name }
    return (⟨next.line, next.column, some (← next.origin? sources (some next.name))⟩, next)
  | _ => none

/-- What the text of a segment says. An empty one says nothing. -/
def segment? (sources : List String) (b : Base) (text : List Char) : Option (List Entry × Base) :=
  if text.isEmpty then some ([], b)
  else do
    let (e, next) ← b.entry? sources (← decode text)
    return ([e], next)

def nextLine (b : Base) : Base := { b with line := b.line + 1, column := 0 }

end Base

/-- What the text of mappings says, of which the segment begun has been taken off. -/
def readFrom? (sources : List String) (b : Base) (begun : List Char) :
    List Char → Option (List Entry)
  | [] => (b.segment? sources begun).map (·.1)
  | c :: cs =>
    if c = ';' then do
      let (es, next) ← b.segment? sources begun
      return es ++ (← readFrom? sources next.nextLine [] cs)
    else if c = ',' then do
      let (es, next) ← b.segment? sources begun
      return es ++ (← readFrom? sources next [] cs)
    else readFrom? sources b (begun ++ [c]) cs

def readMappings? (sources : List String) (text : String) : Option (List Entry) :=
  readFrom? sources {} [] text.toList

section

variable {sources : List String} {b next : Base} {begun cs : List Char} {es : List Entry}

theorem readFrom?_append {segment : List Char} (h : ∀ c ∈ segment, ¬ isSeparator c) :
    readFrom? sources b begun (segment ++ cs) = readFrom? sources b (begun ++ segment) cs := by
  induction segment generalizing begun with
  | nil => simp
  | cons c segment ih =>
    have hc := h c (.head _)
    rw [List.cons_append, readFrom?, if_neg fun heq => hc (.inl heq),
      if_neg fun heq => hc (.inr heq), ih fun d hd => h d (.tail _ hd)]
    simp

theorem readFrom?_semicolon (h : b.segment? sources begun = some (es, next)) :
    readFrom? sources b begun (';' :: cs) =
      (readFrom? sources next.nextLine [] cs).map (es ++ ·) := by
  rw [readFrom?, if_pos rfl, h]
  exact (Option.map_eq_bind ..).symm

theorem readFrom?_comma (h : b.segment? sources begun = some (es, next)) :
    readFrom? sources b begun (',' :: cs) = (readFrom? sources next [] cs).map (es ++ ·) := by
  rw [readFrom?, if_neg (by decide), if_pos rfl, h]
  exact (Option.map_eq_bind ..).symm

theorem segment?_nil : b.segment? sources [] = some ([], b) := rfl

theorem readFrom?_semicolons (k : Nat) (hcolumn : b.column = 0) :
    readFrom? sources b [] (List.replicate k ';' ++ cs) =
      readFrom? sources { b with line := b.line + k } [] cs := by
  induction k generalizing b with
  | zero => rfl
  | succ k ih =>
    have hb : { b.nextLine with line := b.nextLine.line + k } =
        { b with line := b.line + (k + 1) } := by
      simp only [Base.nextLine, hcolumn]
      congr 1
      omega
    rw [List.replicate_succ, List.cons_append, readFrom?_semicolon segment?_nil, ih rfl, hb]
    simp

end

/-! ### Mappings in order -/

def Mapping.entry (m : Mapping) : Entry :=
  ⟨m.line.toNat, m.column,
    some ⟨m.source.text?.getD "", m.sourceLine, m.sourceColumn, none⟩⟩

def Cursor.base (c : Cursor) : Base :=
  { line := c.line.toNat, column := c.column, source := c.source, sourceLine := c.sourceLine + 1
    sourceColumn := c.sourceColumn }

/-- Whether the source of a mapping stands where its number says. -/
def Mapping.Listed (known : List Key) (sources : List String) (m : Mapping) : Prop :=
  sources[known.idxOf m.source]? = some (m.source.text?.getD "")

theorem segment?_segment {sources : List String} {column : Int} (hm : m.Listed known sources)
    (hcolumn : column = if c.line < m.line then 0 else c.column) (hline : c.line ≤ m.line) :
    Base.segment? sources { c.base with line := m.line.toNat, column } (segment known c m) =
      some ([m.entry], (c.after known m).base) := by
  have hne : (segment known c m).isEmpty = false := by
    simpa using segment_ne_nil
  have hsource : c.source + ((known.idxOf m.source : Int) - c.source) = known.idxOf m.source := by
    omega
  have hsourceLine : c.sourceLine + 1 + (m.sourceLine - 1 - c.sourceLine) = m.sourceLine := by omega
  have hsourceColumn : c.sourceColumn + (m.sourceColumn - c.sourceColumn) =
      m.sourceColumn := by omega
  have hmoved : column + (m.column - column) = m.column := by omega
  have hnat : ¬ (known.idxOf m.source : Int) < 0 := by omega
  have hlisted : sources[known.idxOf m.source]? = some (m.source.text?.getD "") := hm
  have hafter : max c.line m.line = m.line := by omega
  rw [Base.segment?, hne, decode_segment]
  simp [Base.entry?, Base.origin?, Base.move, Cursor.base, Cursor.after, Mapping.entry, ← hcolumn,
    hsource, hsourceLine, hsourceColumn, hmoved, hnat, hlisted, hafter]

/-- What is read from the text of mappings in order is these mappings, after the segment begun. -/
theorem readFrom?_encodeFrom {sources : List String} {ms : List Mapping} {b : Base}
    {begun : List Char} {es : List Entry} (hbegun : b.segment? sources begun = some (es, c.base))
    (hfresh : c.fresh = true → begun = []) (hfirst : 0 ≤ c.line)
    (hlines : ∀ m ∈ ms, c.line ≤ m.line) (hordered : ms.Pairwise fun m n => m.line ≤ n.line)
    (hlisted : ∀ m ∈ ms, m.Listed known sources) :
    readFrom? sources b begun (encodeFrom known c ms) = some (es ++ ms.map Mapping.entry) := by
  induction ms generalizing c b begun es with
  | nil => simp [encodeFrom, readFrom?, hbegun]
  | cons m rest ih =>
    have hline : c.line ≤ m.line := hlines m (.head _)
    have hm : m.Listed known sources := hlisted m (.head _)
    have hafter : (c.after known m).line = m.line := Int.max_eq_right hline
    rw [List.pairwise_cons] at hordered
    -- the rest is read from the base at the line of `m` on, with the segment of `m` begun
    have hrest (column : Int) (hcolumn : column = if c.line < m.line then 0 else c.column) :
        readFrom? sources { c.base with line := m.line.toNat, column } []
          (segment known c m ++ encodeFrom known (c.after known m) rest) =
            some (m.entry :: rest.map Mapping.entry) := by
      rw [readFrom?_append not_isSeparator_of_mem_segment, List.nil_append]
      refine ih (segment?_segment hm hcolumn hline) (fun h => nomatch h) (by omega) ?_ hordered.2
        fun n hn => hlisted n (.tail _ hn)
      intro n hn
      rw [hafter]
      exact hordered.1 n hn
    rw [encodeFrom, List.append_assoc, separators]
    by_cases hlt : c.line < m.line
    · obtain ⟨k, hk⟩ : ∃ k, (m.line - c.line).toNat = k + 1 :=
        ⟨(m.line - c.line).toNat - 1, by omega⟩
      have hbase : { c.base.nextLine with line := c.base.nextLine.line + k } =
          { c.base with line := m.line.toNat, column := 0 } := by
        simp only [Base.nextLine, Cursor.base]
        congr 1
        omega
      rw [if_pos hlt, hk, List.replicate_succ, List.cons_append, readFrom?_semicolon hbegun,
        readFrom?_semicolons k rfl, hbase, hrest 0 (by rw [if_pos hlt])]
      rfl
    · have hbase : c.base = { c.base with line := m.line.toNat, column := c.column } := by
        simp only [Cursor.base]
        congr 1
        omega
      have hsame := hrest c.column (by rw [if_neg hlt])
      rw [← hbase] at hsame
      rw [if_neg hlt]
      cases hc : c.fresh with
      | true =>
        obtain rfl := hfresh hc
        obtain ⟨rfl, rfl⟩ : [] = es ∧ b = c.base := by
          simpa [segment?_nil] using hbegun
        simpa using hsame
      | false =>
        rw [if_neg (by decide), List.singleton_append, readFrom?_comma hbegun, hsame]
        rfl

end ObjectiveJ.SourceMap
