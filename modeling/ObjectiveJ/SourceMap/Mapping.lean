import ObjectiveJ.Json.Writer
import ObjectiveJ.Key
import ObjectiveJ.SourceMap.Vlq

/-!
# Source maps

A mapping ties a position of the generated text to a position of a source file. The text form of
the mappings of a file lists them in order of their generated position: a semicolon starts the
next line, a comma separates two mappings of a line, and each mapping is four numbers relative to
the mapping before it. The generated column starts from zero on every line.
-/

namespace ObjectiveJ.SourceMap

/-- A generated position (line from one, column from zero) and where it comes from. The line may be
any number, and the mapping stands on the first line that is not before it. Sources with the same
key are the same, however they are written. -/
structure Mapping where
  place : Key
  column : Int
  source : Key
  sourceLine : Int
  sourceColumn : Int
  spelling : Json := source.toJson

def Mapping.line (m : Mapping) : Int :=
  match m.place with
  | .number n => n
  | .fraction bits => (Decimal.whole? (Float.ofBits bits).ceil).getD 0
  | _ => 0

def Mapping.ofJson? : Json → Option Mapping
  | .arr [line, column, source, sourceLine, sourceColumn] => do
    return {
      place := ← line.key?.filter Key.isNumber
      column := ← column.whole?
      source := ← source.key?
      sourceLine := ← sourceLine.whole?
      sourceColumn := ← sourceColumn.whole?
      spelling := source }
  | _ => none

def Mapping.before (a b : Mapping) : Bool :=
  if a.place = b.place then a.column ≤ b.column else a.place.numberLe b.place

def sources (mappings : List Mapping) : List Key :=
  mappings.foldl (fun known m => if m.source ∈ known then known else known ++ [m.source]) []

def sourceNames (mappings : List Mapping) : List Json :=
  (sources mappings).map fun source =>
    ((mappings.find? (·.source = source)).map (·.spelling)).getD source.toJson

structure Cursor where
  line : Int := 1
  column : Int := 0
  source : Int := 0
  sourceLine : Int := 0
  sourceColumn : Int := 0
  fresh : Bool := true

def separators (c : Cursor) (m : Mapping) : List Char :=
  if c.line < m.line then List.replicate (m.line - c.line).toNat ';'
  else if c.fresh then [] else [',']

def segment (known : List Key) (c : Cursor) (m : Mapping) : List Char :=
  let column := if c.line < m.line then 0 else c.column
  encode (m.column - column) ++ encode (known.idxOf m.source - c.source) ++
    encode (m.sourceLine - 1 - c.sourceLine) ++ encode (m.sourceColumn - c.sourceColumn)

def Cursor.after (known : List Key) (c : Cursor) (m : Mapping) : Cursor :=
  { line := max c.line m.line
    column := m.column
    source := known.idxOf m.source
    sourceLine := m.sourceLine - 1
    sourceColumn := m.sourceColumn
    fresh := false }

def encodeFrom (known : List Key) (c : Cursor) : List Mapping → List Char
  | [] => []
  | m :: rest => separators c m ++ segment known c m ++ encodeFrom known (c.after known m) rest

def encodeMappings (mappings : List Mapping) : String :=
  String.ofList (encodeFrom (sources mappings) {} (mappings.mergeSort Mapping.before))

def toJson (mappings : List Mapping) (file root : Json) : Json :=
  let named (key : String) (value : Json) : List (String × Json) :=
    if value.isNull then [] else [(key, value)]
  .obj ([("version", .int 3)] ++ named "file" file ++ named "sourceRoot" root ++
    [("sources", .arr (sourceNames mappings)), ("names", .arr []),
      ("mappings", .str (encodeMappings mappings))])

end ObjectiveJ.SourceMap
