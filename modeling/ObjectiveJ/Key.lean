import ObjectiveJ.Decimal.Form
import ObjectiveJ.Json.Basic

/-!
# Keys

What a table knows a value by. Values that are equal have the same key: a truth value is the number
zero or one, and a double that is whole is that number. Lists and objects have no key, because they
can change.
-/

namespace ObjectiveJ

inductive Key where
  | null
  | number (value : Int)
  /-- A double that is not whole, by its bits. -/
  | fraction (bits : UInt64)
  | text (value : String)
  | done
  | item (first rest : Key)
  | place (file line column : Key)
  | node (number : Nat)
  deriving Repr, DecidableEq, Inhabited

namespace Key

def text? : Key → Option String
  | .text s => some s
  | _ => none

def ofFloat (x : Float) : Key :=
  match Decimal.whole? x with
  | some n => .number n
  | none => .fraction x.toBits

/-- A value with the key, if it is a plain one; the truth values are numbers. -/
def toJson : Key → Json
  | .null => .null
  | .number n => .int n
  | .fraction bits => .float (Float.ofBits bits)
  | .text s => .str s
  | _ => .null

def isNumber : Key → Bool
  | .number _ => true
  | .fraction _ => true
  | _ => false

def wholeLe (n : Int) (x : Float) : Bool :=
  match Decimal.whole? x.floor with
  | some m => n ≤ m
  | none => 0.0 < x

def numberLe : Key → Key → Bool
  | .number m, .number n => m ≤ n
  | .number m, .fraction b => wholeLe m (Float.ofBits b)
  | .fraction a, .number n => !wholeLe n (Float.ofBits a)
  | .fraction a, .fraction b => Float.ofBits a ≤ Float.ofBits b
  | _, _ => false

def sorted? (keys : List Key) : Option (List Key) :=
  if keys.length ≤ 1 then some keys
  else match keys.mapM text? with
    | some names => some ((names.mergeSort fun a b => !(b < a)).map text)
    | none => if keys.all isNumber then some (keys.mergeSort numberLe) else none

end Key

def Json.key? : Json → Option Key
  | .null => some .null
  | .bool b => some (.number (if b then 1 else 0))
  | .int n => some (.number n)
  | .float x => some (.ofFloat x)
  | .str s => some (.text s)
  | .arr _ => none
  | .obj _ => none

end ObjectiveJ
