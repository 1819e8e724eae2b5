import ObjectiveJ.Decimal.Form
import ObjectiveJ.Json.Basic
import ObjectiveJ.Text.Percent

/-!
# JSON text

A value as JSON text in ASCII: a blank follows every comma and colon, and a character outside
ASCII is written as its UTF-16 units.
-/

namespace ObjectiveJ.Json

open Text (hexDigit)

def escapeUnit (n : Nat) : List Char :=
  ['\\', 'u', hexDigit (n / 4096 % 16) false, hexDigit (n / 256 % 16) false,
    hexDigit (n / 16 % 16) false, hexDigit (n % 16) false]

def escapeChar (c : Char) : List Char :=
  match c with
  | '"' => ['\\', '"']
  | '\\' => ['\\', '\\']
  | '\n' => ['\\', 'n']
  | '\r' => ['\\', 'r']
  | '\t' => ['\\', 't']
  | '\x08' => ['\\', 'b']
  | '\x0c' => ['\\', 'f']
  | _ =>
    let n := c.toNat
    if 0x20 ≤ n ∧ n ≤ 0x7e then [c]
    else if n < 0x10000 then escapeUnit n
    else escapeUnit (0xd800 + (n - 0x10000) / 1024) ++ escapeUnit (0xdc00 + (n - 0x10000) % 1024)

def quote (s : String) : String :=
  String.ofList ('"' :: s.toList.flatMap escapeChar ++ ['"'])

mutual

def write : Json → String
  | .null => "null"
  | .bool b => if b then "true" else "false"
  | .int n => n.repr
  | .float x => Decimal.write Decimal.json x
  | .str s => quote s
  | .arr items => "[" ++ ", ".intercalate (writeItems items) ++ "]"
  | .obj members => "\x7b" ++ ", ".intercalate (writeMembers members) ++ "\x7d"

def writeItems : List Json → List String
  | [] => []
  | item :: rest => item.write :: writeItems rest

def writeMembers : List (String × Json) → List String
  | [] => []
  | (key, value) :: rest => (quote key ++ ": " ++ value.write) :: writeMembers rest

end

end ObjectiveJ.Json
