import ObjectiveJ.Layout.Basic
import ObjectiveJ.SourceMap.Mapping

/-!
# The source map of fragments

A fragment that stands for a place in the source maps the position of its first character to that
place. Positions are found by walking through the text of all fragments, so the mappings come out in
order of their generated position.
-/

namespace ObjectiveJ.SourceMap

structure Position where
  line : Nat := 1
  column : Nat := 0
  deriving DecidableEq

def Position.step (p : Position) (c : Char) : Position :=
  if c = '\n' then { line := p.line + 1 } else { p with column := p.column + 1 }

def Position.after (p : Position) (cs : List Char) : Position := cs.foldl Position.step p

@[simp] theorem Position.after_nil (p : Position) : p.after [] = p := rfl

@[simp] theorem Position.after_append (p : Position) (xs ys : List Char) :
    p.after (xs ++ ys) = (p.after xs).after ys := List.foldl_append

/-- The position after a value: a text, or a list without a line break in it. -/
def Position.afterValue? (p : Position) : Value → Option Position
  | .str s => some (p.after s.toList)
  | .list items =>
    if items.any (·.isText "\n") then none else some { p with column := p.column + items.length }
  | _ => none

def baseName (file : String) : String :=
  String.ofList ((Text.split '/' file.toList).getLastD [])

/-- The column of a place, counted from zero. What is before the first column stands there. -/
def sourceColumn? : Value → Option Int
  | .data (.float x) => if x - 1.0 < 0.0 then some 0 else none
  | v => do return max ((← v.whole?) - 1) 0

def Mapping.ofLocation? (p : Position) (l : Location) : Option Mapping := do
  return {
    place := .number p.line
    column := p.column
    source := .text (baseName (← l.file.text?))
    sourceLine := ← l.line.whole?
    sourceColumn := ← sourceColumn? l.column }

def ofFragments? (p : Position) : List Fragment → Option (List Mapping)
  | [] => some []
  | f :: rest => do
    let here ← match f.location with
      | some l => do pure [← Mapping.ofLocation? p l]
      | none => pure []
    return here ++ (← ofFragments? (← p.afterValue? f.value) rest)

end ObjectiveJ.SourceMap
