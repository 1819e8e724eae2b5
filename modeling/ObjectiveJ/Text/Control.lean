/-!
# Control sequences

Terminals take some texts for commands: an escape character and an opening bracket, parameters, and
a letter. What is printed has no such sequences in it.
-/

namespace ObjectiveJ.Text

def escape : Char := '\x1b'

def isParameter (c : Char) : Bool := c = ';' || c = '?' || ('0' ≤ c && c ≤ '9')

def isCommand (c : Char) : Bool := ('a' ≤ c && c ≤ 'z') || ('A' ≤ c && c ≤ 'Z')

/-- Whether a character may follow the last one of a sequence that was begun, which is given
backwards. -/
def continues (c : Char) : List Char → Bool
  | [] => c = escape
  | [_] => c = '['
  | _ => isParameter c

def withoutControls (begun : List Char) : List Char → List Char
  | [] => begun.reverse
  | c :: rest =>
    if continues c begun then withoutControls (c :: begun) rest
    else if 2 ≤ begun.length && isCommand c then withoutControls [] rest
    else if c = escape then begun.reverse ++ withoutControls [c] rest
    else begun.reverse ++ c :: withoutControls [] rest

def printed (s : String) : String := String.ofList (withoutControls [] s.toList)

end ObjectiveJ.Text
