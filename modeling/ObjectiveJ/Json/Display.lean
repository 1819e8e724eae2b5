import ObjectiveJ.Decimal.Form
import ObjectiveJ.Json.Basic
import ObjectiveJ.Text.Blank
import ObjectiveJ.Text.Percent
import ObjectiveJ.Text.Printable

/-!
# Values in messages

How messages show a value: nothing is `None`, the truth values are capitalized, and a text inside
another value or on its own as a quoted value stands in single quotes, in double quotes if it has
a single quote and no double one. In a quoted text a character that is not printed is shown by its
code.
-/

namespace ObjectiveJ.Json

open Text (hexDigit)

def hexDigits (n : Nat) : Nat → List Char
  | 0 => []
  | places + 1 => hexDigit (n / Nat.pow 16 places % 16) false :: hexDigits n places

def showChar (q : Char) (c : Char) : List Char :=
  let n := c.toNat
  if c = q ∨ c = '\\' then ['\\', c]
  else if c = '\n' then ['\\', 'n']
  else if c = '\r' then ['\\', 'r']
  else if c = '\t' then ['\\', 't']
  else if Text.isPrintable c then [c]
  else if n < 0x100 then '\\' :: 'x' :: hexDigits n 2
  else if n < 0x10000 then '\\' :: 'u' :: hexDigits n 4
  else '\\' :: 'U' :: hexDigits n 8

def showText (s : String) : String :=
  let cs := s.toList
  let q := if '\'' ∈ cs ∧ '"' ∉ cs then '"' else '\''
  String.ofList (q :: cs.flatMap (showChar q) ++ [q])

mutual

def quoted : Json → String
  | .null => "None"
  | .bool b => if b then "True" else "False"
  | .int n => n.repr
  | .float x => Decimal.write Decimal.plain x
  | .str s => showText s
  | .arr items => "[" ++ ", ".intercalate (quotedItems items) ++ "]"
  | .obj members => "\x7b" ++ ", ".intercalate (quotedMembers members) ++ "\x7d"

def quotedItems : List Json → List String
  | [] => []
  | item :: rest => item.quoted :: quotedItems rest

def quotedMembers : List (String × Json) → List String
  | [] => []
  | (key, value) :: rest => (showText key ++ ": " ++ value.quoted) :: quotedMembers rest

end

def display : Json → String
  | .str s => s
  | j => j.quoted

def digitValue? (c : Char) : Option Nat :=
  (Text.decimalZeros.find? fun first => first ≤ c.toNat && c.toNat < first + 10).map (c.toNat - ·)

/-- The number that digits spell; a single underscore may stand between two of them. -/
def numeral? (n : Nat) : List Char → Option Nat
  | [] => none
  | [c] => (digitValue? c).map (n * 10 + ·)
  | c :: '_' :: rest => do numeral? (n * 10 + (← digitValue? c)) rest
  | c :: rest => do numeral? (n * 10 + (← digitValue? c)) rest

/-- Blanks around a number; the information separators are none. -/
def isNumberBlank (c : Char) : Bool := Text.isBlank c && !(0x1c ≤ c.toNat && c.toNat ≤ 0x1f)

def boundedNumeral? (ds : List Char) : Option Nat :=
  if maxDigits < (ds.filter (· ≠ '_')).length then none else numeral? 0 ds

def intOfText? (s : String) : Option Int :=
  let trimmed := ((s.toList.dropWhile isNumberBlank).reverse.dropWhile isNumberBlank).reverse
  match trimmed with
  | '-' :: ds => (boundedNumeral? ds).map fun n => -(n : Int)
  | '+' :: ds => (boundedNumeral? ds).map fun n => (n : Int)
  | ds => (boundedNumeral? ds).map fun n => (n : Int)

/-- The whole number a value stands for: a truth value is zero or one, a double loses its fraction
and a text is read. -/
def toInt? : Json → Option Int
  | .bool b => some (if b then 1 else 0)
  | .int n => some n
  | .float x => Decimal.truncate? x
  | .str s => intOfText? s
  | _ => none

end ObjectiveJ.Json
