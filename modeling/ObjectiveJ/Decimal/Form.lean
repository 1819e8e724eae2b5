import ObjectiveJ.Decimal.Shortest

/-!
# Written decimals

How a double is written: which magnitudes are written positionally, and how the exponent of the
others looks. `plain` is the form of the numbers in generated code and in JSON text.
-/

namespace ObjectiveJ.Decimal

/-- The decisions of a written form. Magnitudes from `least` up to and without `bound` are written
positionally. -/
structure Form where
  least : Int
  bound : Int
  exponentDigits : Nat
  nan : String
  infinity : String

/-- Positional from `0.0001` up to sixteen digits, an exponent of at least two digits with its
sign otherwise. -/
def plain : Form :=
  { least := -4, bound := 16, exponentDigits := 2, nan := "nan", infinity := "inf" }

def json : Form := { plain with nan := "NaN", infinity := "Infinity" }

/-- Digits with the point after the digit of magnitude zero, and at least one digit after it. -/
def Digits.positional (d : Digits) : List Char :=
  if d.magnitude < 0 then
    ['0', '.'] ++ List.replicate (-d.magnitude - 1).toNat '0' ++ d.digits
  else
    let whole := d.magnitude.toNat + 1
    let padded := d.digits ++ List.replicate (whole - d.digits.length) '0'
    let rest := padded.drop whole
    padded.take whole ++ '.' :: (if rest.isEmpty then ['0'] else rest)

def Digits.scientific (n : Form) (d : Digits) : List Char :=
  let mantissa := match d.digits with
    | [] => ['0']
    | [c] => [c]
    | c :: rest => c :: '.' :: rest
  let exponent := Nat.toDigits 10 d.magnitude.natAbs
  mantissa ++ 'e' :: (if d.magnitude < 0 then '-' else '+') ::
    (List.replicate (n.exponentDigits - exponent.length) '0' ++ exponent)

def Digits.write (n : Form) (d : Digits) : List Char :=
  if n.least ≤ d.magnitude ∧ d.magnitude < n.bound then d.positional else d.scientific n

def fields (x : Float) : Bool × Nat × Nat :=
  let bits := x.toBits.toNat
  (Nat.pow 2 63 ≤ bits, bits / Nat.pow 2 52 % Nat.pow 2 11, bits % Nat.pow 2 52)

def write (n : Form) (x : Float) : String :=
  let (negative, field, fraction) := fields x
  let sign := if negative then "-" else ""
  if field = 2047 then
    if fraction = 0 then sign ++ n.infinity else n.nan
  else if field = 0 ∧ fraction = 0 then sign ++ "0.0"
  else sign ++ String.ofList ((Rounded.ofFields field fraction).shortest.write n)

def truncate? (x : Float) : Option Int :=
  let (negative, field, fraction) := fields x
  if field = 2047 then none
  else
    let r := Rounded.ofFields field fraction
    let whole : Int := r.value.num / r.value.den
    some (if negative then -whole else whole)

def whole? (x : Float) : Option Int :=
  let (negative, field, fraction) := fields x
  if field = 2047 then none
  else
    let r := Rounded.ofFields field fraction
    if r.value.num % r.value.den = 0 then
      let whole : Int := r.value.num / r.value.den
      some (if negative then -whole else whole)
    else none

/-- The double nearest to `digits * 10 ^ exponent`. A number of more than four hundred places
overflows, and one that begins after four hundred places is zero. -/
def read (negative : Bool) (digits : Nat) (exponent : Int) : Float :=
  let size := (digitCount digits : Int) + exponent
  let x :=
    if digits = 0 ∨ size < -400 then 0.0
    else if 400 < size then 1.0 / 0.0
    else if exponent < 0 then Float.ofScientific digits true (-exponent).toNat
    else Float.ofScientific digits false exponent.toNat
  if negative then -x else x

end ObjectiveJ.Decimal
