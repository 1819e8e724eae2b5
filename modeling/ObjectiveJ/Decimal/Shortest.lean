/-!
# Shortest decimals

A finite double other than zero is `mantissa * 2 ^ exponent`. The reals that round to it form an
interval around it, whose ends belong to it when the mantissa is even. `shortest` searches the
decimal grids with one, two, ... seventeen digits for a point of that interval and takes the first
hit, of two hits on one grid the nearer one. Everything is exact arithmetic on natural numbers: a
value is a fraction, and comparing fractions is multiplying crosswise.
-/

namespace ObjectiveJ.Decimal

structure Fraction where
  num : Nat
  den : Nat

namespace Fraction

def binary (m : Nat) (q : Int) : Fraction :=
  if q < 0 then ⟨m, Nat.pow 2 (-q).toNat⟩ else ⟨m * Nat.pow 2 q.toNat, 1⟩

def decimal (d : Nat) (s : Int) : Fraction :=
  if s < 0 then ⟨d, Nat.pow 10 (-s).toNat⟩ else ⟨d * Nat.pow 10 s.toNat, 1⟩

def le (a b : Fraction) : Bool := a.num * b.den ≤ b.num * a.den

def lt (a b : Fraction) : Bool := a.num * b.den < b.num * a.den

def units (a : Fraction) (s : Int) : Nat :=
  if s < 0 then a.num * Nat.pow 10 (-s).toNat / a.den
  else a.num / (a.den * Nat.pow 10 s.toNat)

def distance (a b : Fraction) : Fraction :=
  let x := a.num * b.den
  let y := b.num * a.den
  ⟨if x ≤ y then y - x else x - y, a.den * b.den⟩

end Fraction

structure Rounded where
  value : Fraction
  low : Fraction
  high : Fraction
  closed : Bool

/-- The rounding interval of the double with the exponent field `field` and the fraction field
`fraction`. Below a power of two the neighbours are twice as close. -/
def Rounded.ofFields (field fraction : Nat) : Rounded :=
  let m := if field = 0 then fraction else fraction + Nat.pow 2 52
  let q : Int := if field = 0 then -1074 else (field : Int) - 1075
  let narrow := fraction = 0 ∧ 1 < field
  { value := .binary m q
    low := if narrow then .binary (4 * m - 1) (q - 2) else .binary (2 * m - 1) (q - 1)
    high := .binary (2 * m + 1) (q - 1)
    closed := m % 2 = 0 }

def Rounded.holds (r : Rounded) (x : Fraction) : Bool :=
  if r.closed then r.low.le x && x.le r.high else r.low.lt x && x.lt r.high

def digitCount (n : Nat) : Nat := (Nat.toDigits 10 n).length

/-- The exponent of ten of the first significant digit. A double has fewer than four hundred
places after the point before its first digit. -/
def Rounded.magnitude (r : Rounded) : Int :=
  (digitCount (r.value.units (-400)) : Int) - 401

def Rounded.hit? (r : Rounded) (s : Int) : Option Nat :=
  let below := r.value.units s
  let above := below + 1
  match r.holds (.decimal below s) && below != 0, r.holds (.decimal above s) with
  | true, true =>
    let down := r.value.distance (.decimal below s)
    let up := r.value.distance (.decimal above s)
    if down.lt up then some below
    else if up.lt down then some above
    else if below % 2 = 0 then some below else some above
  | true, false => some below
  | false, true => some above
  | false, false => none

def Rounded.search (r : Rounded) (magnitude : Int) : Nat → Nat → Nat × Int
  | 0, n => (r.value.units (magnitude + 1 - n), magnitude + 1 - n)
  | fuel + 1, n =>
    match r.hit? (magnitude + 1 - n) with
    | some d => (d, magnitude + 1 - n)
    | none => r.search magnitude fuel (n + 1)

structure Digits where
  digits : List Char
  magnitude : Int

/-- The fewest digits that read back as the double, the nearest to it if there are several. -/
def Rounded.shortest (r : Rounded) : Digits :=
  let (d, s) := r.search r.magnitude 17 1
  let text := Nat.toDigits 10 d
  { digits := (text.reverse.dropWhile (· = '0')).reverse
    magnitude := (text.length : Int) - 1 + s }

end ObjectiveJ.Decimal
