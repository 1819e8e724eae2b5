import ObjectiveJ.Decimal.Form
import ObjectiveJ.Json.Basic

/-!
# Reading JSON text

`parse` reads a text that is one JSON value with blanks around it. Besides the values of the
standard it takes `NaN`, `Infinity` and `-Infinity`. A number with a fraction or an exponent is a
double, every other number is whole; a whole number of too many digits is not read, which is
another error than a malformed text. A key that is repeated keeps its first place and takes its last
value.

The reader works on the list of the remaining characters, and keeps the lists and objects that are
still open on a stack, so that values may be nested to any depth. The number of its steps is bounded
by one that no text of the given length exceeds.
-/

namespace ObjectiveJ.Json

inductive ParseError where
  | malformed
  | tooManyDigits
  deriving Repr, DecidableEq

abbrev Reading := Except ParseError

def ofOption {α : Type} : Option α → Reading α
  | some r => .ok r
  | none => .error .malformed

def isSpace (c : Char) : Bool := c == ' ' || c == '\t' || c == '\n' || c == '\r'

def skipSpaces (cs : List Char) : List Char := cs.dropWhile isSpace

def hexValue? (c : Char) : Option Nat :=
  if '0' ≤ c ∧ c ≤ '9' then some (c.toNat - 48)
  else if 'a' ≤ c ∧ c ≤ 'f' then some (c.toNat - 87)
  else if 'A' ≤ c ∧ c ≤ 'F' then some (c.toNat - 55)
  else none

def unit? : List Char → Option (Nat × List Char)
  | a :: b :: c :: d :: rest => do
    let a ← hexValue? a
    let b ← hexValue? b
    let c ← hexValue? c
    let d ← hexValue? d
    some (((a * 16 + b) * 16 + c) * 16 + d, rest)
  | _ => none

/-- The character that a unit begins, with the text after it: a high surrogate takes a following
escaped low one with it. -/
def charOfUnit (n : Nat) (rest : List Char) : Char × List Char :=
  if 0xd800 ≤ n ∧ n < 0xdc00 then
    match rest with
    | '\\' :: 'u' :: after =>
      match unit? after with
      | some (m, after) =>
        if 0xdc00 ≤ m ∧ m < 0xe000 then
          (Char.ofNat (0x10000 + (n - 0xd800) * 1024 + (m - 0xdc00)), after)
        else ('�', rest)
      | none => ('�', rest)
    | _ => ('�', rest)
  else if 0xdc00 ≤ n ∧ n < 0xe000 then ('�', rest)
  else (Char.ofNat n, rest)

def escaped? : Char → Option Char
  | '"' => some '"'
  | '\\' => some '\\'
  | '/' => some '/'
  | 'b' => some '\x08'
  | 'f' => some '\x0c'
  | 'n' => some '\n'
  | 'r' => some '\r'
  | 't' => some '\t'
  | _ => none

/-- The text up to the closing quote, whose characters so far are `done` in reverse. -/
def readString (done : List Char) : Nat → List Char → Reading (String × List Char)
  | 0, _ => .error .malformed
  | fuel + 1, cs =>
    match cs with
    | [] => .error .malformed
    | '"' :: rest => .ok (String.ofList done.reverse, rest)
    | '\\' :: 'u' :: rest => do
      let (n, rest) ← ofOption (unit? rest)
      let (c, rest) := charOfUnit n rest
      readString (c :: done) fuel rest
    | '\\' :: e :: rest => match escaped? e with
      | some c => readString (c :: done) fuel rest
      | none => .error .malformed
    | c :: rest =>
      if c.toNat < 0x20 then .error .malformed else readString (c :: done) fuel rest

def spanDigits (cs : List Char) : List Char × List Char := cs.span Char.isDigit

def natOfDigits (ds : List Char) : Nat := ds.foldl (fun n d => n * 10 + (d.toNat - 48)) 0

def wholeDigits? : List Char → Option (List Char × List Char)
  | '0' :: rest => some (['0'], rest)
  | cs => match spanDigits cs with
    | ([], _) => none
    | (ds, rest) => some (ds, rest)

def fractionDigits (cs : List Char) : List Char × List Char :=
  match cs with
  | '.' :: rest => match spanDigits rest with
    | ([], _) => ([], cs)
    | (ds, rest) => (ds, rest)
  | _ => ([], cs)

def exponentPart (cs : List Char) : Option Int × List Char :=
  let signed (negative : Bool) (rest : List Char) : Option Int × List Char :=
    match spanDigits rest with
    | ([], _) => (none, cs)
    | (ds, rest) => (some (if negative then -(natOfDigits ds : Int) else natOfDigits ds), rest)
  match cs with
  | e :: rest =>
    if e = 'e' ∨ e = 'E' then
      match rest with
      | '-' :: rest => signed true rest
      | '+' :: rest => signed false rest
      | rest => signed false rest
    else (none, cs)
  | [] => (none, cs)

def readNumber (negative : Bool) (cs : List Char) : Reading (Json × List Char) := do
  let (whole, rest) ← ofOption (wholeDigits? cs)
  let (fraction, rest) := fractionDigits rest
  let (exponent, rest) := exponentPart rest
  if fraction.isEmpty && exponent.isNone then
    if maxDigits < whole.length then .error .tooManyDigits
    else
      let n : Int := natOfDigits whole
      .ok (.int (if negative then -n else n), rest)
  else
    let digits := natOfDigits (whole ++ fraction)
    let scale := exponent.getD 0 - fraction.length
    .ok (.float (Decimal.read negative digits scale), rest)

def readWord (word : String) (value : Json) (cs : List Char) : Reading (Json × List Char) :=
  if word.toList.isPrefixOf cs then .ok (value, cs.drop word.length) else .error .malformed

def readScalar (cs : List Char) : Reading (Json × List Char) :=
  match cs with
  | 'n' :: _ => readWord "null" .null cs
  | 't' :: _ => readWord "true" (.bool true) cs
  | 'f' :: _ => readWord "false" (.bool false) cs
  | 'N' :: _ => readWord "NaN" (.float (0.0 / 0.0)) cs
  | 'I' :: _ => readWord "Infinity" (.float (1.0 / 0.0)) cs
  | '-' :: 'I' :: _ => readWord "-Infinity" (.float (-1.0 / 0.0)) cs
  | '-' :: rest => readNumber true rest
  | _ => readNumber false cs

inductive Open where
  | list (items : List Json)
  /-- The key is that of the member whose value comes next. -/
  | object (members : List (String × Json)) (key : String)

def readKey (fuel : Nat) : List Char → Reading (String × List Char)
  | '"' :: rest => do
    let (key, rest) ← readString [] fuel rest
    match skipSpaces rest with
    | ':' :: rest => .ok (key, skipSpaces rest)
    | _ => .error .malformed
  | _ => .error .malformed

/-- What a value at the start of a text begins with: the whole of it, or a list or object that is
open from there on. -/
def readStart (fuel : Nat) (cs : List Char) : Reading ((Json ⊕ Open) × List Char) := do
  match cs with
  | '"' :: rest =>
    let (s, rest) ← readString [] fuel rest
    return (.inl (.str s), rest)
  | '[' :: rest =>
    match skipSpaces rest with
    | ']' :: rest => return (.inl (.arr []), rest)
    | rest => return (.inr (.list []), rest)
  | c :: rest =>
    if c ≠ '\x7b' then
      let (value, rest) ← readScalar cs
      return (.inl value, rest)
    match skipSpaces rest with
    | d :: rest =>
      if d = '\x7d' then return (.inl (.obj []), rest)
      let (key, rest) ← readKey fuel (d :: rest)
      return (.inr (.object [] key), rest)
    | [] => throw .malformed
  | [] => throw .malformed

/-- What follows an item of an open list or object: it goes on, or it ends and is a value. -/
def readOn (fuel : Nat) (o : Open) (item : Json) (cs : List Char) :
    Reading ((Json ⊕ Open) × List Char) := do
  match o, skipSpaces cs with
  | .list items, ',' :: rest => return (.inr (.list (item :: items)), skipSpaces rest)
  | .list items, ']' :: rest => return (.inl (.arr (item :: items).reverse), rest)
  | .object members key, c :: rest =>
    let members := (key, item) :: members
    if c = ',' then
      let (key, rest) ← readKey fuel (skipSpaces rest)
      return (.inr (.object members key), rest)
    if c = '\x7d' then return (.inl (ofPairs members.reverse), rest)
    throw .malformed
  | _, _ => throw .malformed

/-- The value that is complete once all open lists and objects are: `done` is one that has just been
read, if there is one, else a value comes next. -/
def readValue : Nat → List Open → Option Json → List Char → Reading (Json × List Char)
  | 0, _, _, _ => .error .malformed
  | _ + 1, [], some value, cs => .ok (value, cs)
  | fuel + 1, o :: stack, some item, cs =>
    match readOn fuel o item cs with
    | .ok (.inl value, rest) => readValue fuel stack (some value) rest
    | .ok (.inr o, rest) => readValue fuel (o :: stack) none rest
    | .error e => .error e
  | fuel + 1, stack, none, cs =>
    match readStart fuel cs with
    | .ok (.inl value, rest) => readValue fuel stack (some value) rest
    | .ok (.inr o, rest) => readValue fuel (o :: stack) none rest
    | .error e => .error e

def parse (s : String) : Except ParseError Json := do
  let cs := s.toList
  let (value, rest) ← readValue (2 * cs.length + 3) [] none (skipSpaces cs)
  if (skipSpaces rest).isEmpty then .ok value else .error .malformed

end ObjectiveJ.Json
