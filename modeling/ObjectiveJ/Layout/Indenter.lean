import ObjectiveJ.Json.Display
import ObjectiveJ.Text.Basic

/-!
# Indentation

The indentation is kept as the text that starts a line. A level is a *step*, the indent text
repeated; in templates the arrow `→` stands for one step. If the format gives something else than a
text and a number for it, the step is no text and cannot be written.
-/

namespace ObjectiveJ

inductive IndentStep where
  | text (cs : List Char)
  | items (count : Nat)
  | whole (n : Int)
  | fraction
  deriving Repr, DecidableEq

namespace IndentStep

def text? : IndentStep → Option (List Char)
  | text cs => some cs
  | _ => none

def length? : IndentStep → Option Nat
  | text cs => some cs.length
  | items count => some count
  | _ => none

/-- A step as many times as a value says. A text is repeated, and so is a text that stands in the
place of the number if the step is one. -/
def times? : IndentStep → Json → Option (List Char)
  | text cs, count => do Text.repeated? cs (← count.whole?)
  | whole n, .str s => Text.repeated? s.toList n
  | _, _ => none

end IndentStep

structure Indenter where
  step : IndentStep
  indentation : List Char := []

namespace Indenter

def ofText? (cs : List Char) (n : Json) : Option Indenter := do
  return { step := .text (← Text.repeated? cs (← n.whole?)) }

def ofItems? (items : List Json) (n : Json) : Option Indenter := do
  let n ← n.whole?
  if !Text.isCount n ∨ Text.sizeLimit < items.length * n then none
  else return { step := .items (items.length * n.toNat) }

/-- The indenter whose step is the product of two numbers. A whole number that is beyond all doubles
has no product with one. -/
def ofNumbers? : Json → Json → Option Indenter
  | .float _, .float _ => some { step := .fraction }
  | .float _, n => ofFraction? n
  | n, .float _ => ofFraction? n
  | m, n => do return { step := .whole ((← m.whole?) * (← n.whole?)) }
where
  ofFraction? (n : Json) : Option Indenter := do
    if (← n.whole?).natAbs < Nat.pow 2 1024 - Nat.pow 2 970 then some { step := .fraction }
      else none

/-- An indenter for an indent text and a number of repetitions, in either order. Two numbers, or a
list and a number, make a step that is no text; nothing else makes one. -/
def make? (text width : Json) : Option Indenter :=
  match text, width with
  | .str s, n => ofText? s.toList n
  | n, .str s => ofText? s.toList n
  | .arr items, n => ofItems? items n
  | n, .arr items => ofItems? items n
  | m, n => ofNumbers? m n

def indent? (i : Indenter) (count : Json) : Option Indenter := do
  return { i with indentation := i.indentation ++ (← i.step.times? count) }

/-- Some levels up again: as many characters as these levels have are taken from the front. -/
def dedent? (i : Indenter) (count : Json) : Option Indenter := do
  let size := (← i.step.length?) * (← count.whole?)
  return { i with indentation := Text.sliceFrom size i.indentation }

def line (i : Indenter) (cs : List Char) : List Char :=
  if cs.all Text.isBlank then cs else i.indentation ++ cs

def templateLines (i : Indenter) (skipFirst : Bool) : List (List Char) → List (List Char)
  | [] => []
  | first :: rest => (if skipFirst then first else i.line first) :: rest.map i.line

def template? (i : Indenter) (text : List Char) (skipFirst : Bool) : Option (List Char) := do
  let lines := i.templateLines skipFirst (Text.split '\n' text)
  return Text.replaceChar '→' (← i.step.text?) (Text.join '\n' lines)

inductive Directive where
  | none
  | by (levels : Int)
  | tooLong
  deriving Repr, DecidableEq

def digits (cs : List Char) : List Char := cs.takeWhile fun c => (Json.digitValue? c).isSome

/-- The directive of a number, with a minus sign before it or not; none if there is no number. -/
def amount? : List Char → Option Directive
  | '-' :: rest => ofDigits (digits rest) (-1)
  | cs => ofDigits (digits cs) 1
where
  ofDigits (ds : List Char) (sign : Int) : Option Directive :=
    if ds.isEmpty then .none
    else match Json.boundedNumeral? ds with
      | some n => some (.by (sign * n))
      | .none => some .tooLong

/-- What stands before the first directive of a line, and the directive: a bar and a number. -/
def directive : List Char → List Char × Directive
  | [] => ([], .none)
  | c :: rest =>
    match if c = '|' then amount? rest else .none with
    | some d => ([], d)
    | .none =>
      let (before, d) := directive rest
      (c :: before, d)

def shift? (i : Indenter) : Directive → Option Indenter
  | .none => some i
  | .by n => if n > 0 then i.indent? (.int n) else if n < 0 then i.dedent? (.int (-n)) else some i
  | .tooLong => .none

/-- The lines of a format value after the first, and the indentation after them. A line is indented
if it is the last one or has a text, unless its directive is zero. There are no lines if a directive
cannot be carried out, and then the indentation is the one before it. -/
def valueLines (i : Indenter) : List (List Char) → Indenter × Option (List (List Char))
  | [] => (i, some [])
  | line :: rest =>
    let (text, d) := directive line
    match i.shift? d with
    | none => (i, none)
    | some i =>
      let text :=
        if d ≠ .by 0 ∧ (rest.isEmpty ∨ !text.isEmpty) then i.indentation ++ text else text
      let (i, lines) := i.valueLines rest
      (i, lines.map (text :: ·))

def value (i : Indenter) (value : List Char) : Indenter × Option (List Char) :=
  match Text.split '\n' value with
  | [] => (i, some [])
  | first :: rest =>
    let (text, d) := directive first
    match i.shift? d with
    | none => (i, none)
    | some i =>
      let (i, lines) := i.valueLines rest
      (i, lines.map fun lines => Text.join '\n' (text :: lines))

end Indenter

end ObjectiveJ
