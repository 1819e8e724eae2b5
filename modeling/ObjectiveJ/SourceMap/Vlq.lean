/-!
# Base64 VLQ

The numbers of a source map. The sign of a number becomes its lowest bit, and the rest is cut
into groups of five bits, the least significant first; a digit of base 64 holds one group and a
bit that says whether another group follows.
-/

namespace ObjectiveJ.SourceMap

def alphabet : List Char :=
  "ABCDEFGHIJKLMNOPQRSTUVWXYZabcdefghijklmnopqrstuvwxyz0123456789+/".toList

def digit (n : Nat) : Char := alphabet.getD n 'A'

/-- The first position from which on a text stands in another one. -/
def indexOf? (piece : List Char) : List Char → Option Nat
  | [] => if piece.isEmpty then some 0 else none
  | c :: cs =>
    if piece.isPrefixOf (c :: cs) then some 0 else (indexOf? piece cs).map (· + 1)

/-- The number of a digit; of a run of digits it is that of the first one, if they follow each
other. -/
def digitValue? (digits : List Char) : Option Nat := indexOf? digits alphabet

def fold (value : Int) : Nat :=
  if value < 0 then 2 * value.natAbs + 1 else 2 * value.natAbs

def unfold (n : Nat) : Int :=
  if n % 2 = 1 then -(n / 2 : Nat) else (n / 2 : Nat)

def groups (n : Nat) : List Nat :=
  if n < 32 then [n] else (n % 32 + 32) :: groups (n / 32)
termination_by n

def encode (value : Int) : List Char := (groups (fold value)).map digit

/-- The numbers that groups make, where `value` and `weight` hold the groups of the number begun.
The groups of a number that does not end are dropped. -/
def ungroup (value weight : Nat) : List Nat → List Int
  | [] => []
  | d :: rest =>
    let value := value + d % 32 * weight
    if 32 ≤ d then ungroup value (weight * 32) rest else unfold value :: ungroup 0 1 rest

def decodeDigits? (digits : List (List Char)) : Option (List Int) :=
  (digits.mapM digitValue?).map (ungroup 0 1)

def decode (cs : List Char) : Option (List Int) := decodeDigits? (cs.map fun c => [c])

end ObjectiveJ.SourceMap
