import ObjectiveJ.Format.Resolve
import ObjectiveJ.Layout.Indenter

/-!
# Laying out generated code

Generated code is a sequence of instructions: texts, templates that are indented, *hooks* where the
format puts what it wants, changes of the indentation, and splices of one buffer into another.
Carried out in order they fill the buffers with fragments. A fragment keeps its number wherever it
is spliced, and remembers the place in the source that it stands for, if the places are kept. What a
fragment holds is a text as a rule; it may be any value, but only texts can be joined.

The hooks are the only instructions that look at the format, so the same instructions laid out by
two formats differ only there.
-/

namespace ObjectiveJ

/-- The key of a hook. The keys around the brackets of an array depend on the number of its
elements: a short array has keys of its own. -/
inductive HookKey where
  | plain (key : String)
  | bracket (side name : String) (elements : Nat)
  deriving Repr, DecidableEq

inductive Instr where
  | text (buffer : Nat) (value : Value) (location : Option Location)
  | template (buffer : Nat) (s : String) (skipFirst : Bool) (location : Option Location)
  | hook (buffer : Nat) (type : String) (key : HookKey) (ancestry : Ancestry)
  | indent (levels : Int)
  | dedent (levels : Int)
  | splice (target source : Nat)

structure Fragment where
  serial : Nat
  value : Value
  location : Option Location

structure Layout where
  format : Format
  indenter : Indenter
  keepsPlaces : Bool := true
  count : Nat := 0
  buffers : Array (Array Fragment) := #[]

namespace Layout

def fragments (l : Layout) (buffer : Nat) : Array Fragment := l.buffers[buffer]?.getD #[]

def append (l : Layout) (buffer : Nat) (fs : Array Fragment) : Layout :=
  let buffers := l.buffers ++ Array.replicate (buffer + 1 - l.buffers.size) #[]
  { l with buffers := buffers.modify buffer (· ++ fs) }

def placeOf (l : Layout) (location : Option Location) : Option Location :=
  if l.keepsPlaces then location else none

def write (l : Layout) (buffer : Nat) (value : Value) (location : Option Location) : Layout :=
  { l.append buffer #[{ serial := l.count, value, location := l.placeOf location }] with
    count := l.count + 1 }

def blank (l : Layout) (serial : Nat) : Layout :=
  { l with buffers := l.buffers.map fun fs =>
      fs.map fun f => if f.serial = serial then { f with value := .str "" } else f }

/-- Whether an array with so many elements is a short one; the limit may be any number, and zero
where there is none. -/
def isShort? (f : Format) (elements : Nat) : Option Bool :=
  let limit := f.global "single-line-array-limit"
  if !limit.truthy then some (elements ≤ 0)
  else match limit with
    | .int n => some (elements ≤ n)
    | .bool _ => some (elements ≤ 1)
    | .float x => some (Float.ofNat elements ≤ x)
    | _ => none

def keyText? (f : Format) : HookKey → Option String
  | .plain key => some key
  | .bracket side name elements => do
    return side ++ "-" ++ (if ← isShort? f elements then "single-" else "") ++ name

def hook (l : Layout) (buffer : Nat) (type key : String) (ancestry : Ancestry) :
    Except Layout Layout :=
  let value := l.format.valueFor (some ancestry) type key
  if !value.truthy then .ok l
  else match value with
    | .str s => match l.indenter.value s.toList with
      | (indenter, some text) =>
        .ok { l.write buffer (.str (String.ofList text)) none with indenter }
      | (indenter, none) => .error { l with indenter }
    | _ => .error l

def orElse (l : Layout) : Option Layout → Except Layout Layout
  | some l => .ok l
  | none => .error l

/-- Carries out one instruction. The error is how far it is carried out if the format has a value
that cannot be used. -/
def exec (l : Layout) : Instr → Except Layout Layout
  | .text buffer value location => .ok (l.write buffer value location)
  | .template buffer s skipFirst location => l.orElse do
    let text ← l.indenter.template? s.toList skipFirst
    return l.write buffer (.str (String.ofList text)) location
  | .hook buffer type key ancestry =>
    match keyText? l.format key with
    | some key => l.hook buffer type key ancestry
    | none => .error l
  | .indent n => l.orElse do return { l with indenter := ← l.indenter.indent? (.int n) }
  | .dedent n => l.orElse do return { l with indenter := ← l.indenter.dedent? (.int n) }
  | .splice target source => .ok (l.append target (l.fragments source))

/-- Carries out instructions in order, the first of which has a number. The error is the number of
the one that cannot be carried out. -/
def runFrom (l : Layout) (number : Nat) : List Instr → Except Nat Layout
  | [] => .ok l
  | i :: rest => match l.exec i with
    | .ok l => l.runFrom (number + 1) rest
    | .error _ => .error number

def run (l : Layout) (instrs : List Instr) : Except Nat Layout := l.runFrom 0 instrs

end Layout

def Fragment.text? (fs : List Fragment) : Option String := do
  return String.join (← fs.mapM fun f => f.value.text?)

end ObjectiveJ
