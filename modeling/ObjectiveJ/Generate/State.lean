import ObjectiveJ.Diagnostics
import ObjectiveJ.Layout.Basic
import ObjectiveJ.Predefined

/-!
# The state of a code generator

Code is generated by one walk through a program. The walk writes instructions for the layout into a
*trace*, declares variables in frames, registers classes and protocols, and reports issues. A walk
that fails keeps the state that it has reached.

What does not change below a node is no state: a `Site` says in which frame the node is compiled,
into which buffer its code goes and under which type it is laid out.
-/

namespace ObjectiveJ

structure Settings where
  objjScope : Bool := true
  methodNames : Bool := true
  typeSignatures : Bool := true
  inlineMsgSend : Bool := false
  source : Option (List Char) := none
  predefined : Table String PredefinedGlobal := {}
  /-- The number of an instruction that cannot be carried out; the walk ends there. -/
  stop : Option Nat := none

inductive Failure where
  | fatal (f : Fatal)
  | uncompilable (message : String)
  | arity (e : ArityError)
  /-- A part that is needed is missing, or it is not what is needed there. -/
  | incomplete

structure MethodBuffer where
  buffer : Nat
  isEmpty : Bool := true

structure MethodBuffers where
  instanceMethods : MethodBuffer
  classMethods : MethodBuffer

/-- The buffer for the methods of a kind. -/
def MethodBuffers.of (both : MethodBuffers) : MethodKind → MethodBuffer
  | .ofInstance => both.instanceMethods
  | .ofClass => both.classMethods

/-- The buffer for the methods of a kind is not empty any more. -/
def MethodBuffers.mark (both : MethodBuffers) : MethodKind → MethodBuffers
  | .ofInstance => { both with instanceMethods := { both.instanceMethods with isEmpty := false } }
  | .ofClass => { both with classMethods := { both.classMethods with isEmpty := false } }

structure GenState where
  settings : Settings
  symbols : Symbols
  diagnostics : Diagnostics
  frames : Frames := {}
  ancestry : Ancestry := {}
  trace : Array Instr := #[]
  buffers : Nat := 1
  methods : Option MethodBuffers := none

abbrev Gen := ExceptT Failure (StateM GenState)

structure Site where
  frame : FrameId
  buffer : Nat := 0
  type : String := ""
  inMessage : Bool := false
  earlier : Nat := 0

abbrev Walk := Site → Gen Unit

inductive Manner where
  | plain
  | elseIf
  /-- The body of a function or method, which may be a lambda. -/
  | body (isLambda : Bool)
  deriving Repr, DecidableEq

abbrev Walker := Manner → Value → Walk

namespace Gen

def incomplete {α : Type} : Gen α := throw .incomplete

def fatal {α : Type} (f : Fatal) : Gen α := throw (.fatal f)

def ofOption {α : Type} : Option α → Gen α
  | some a => pure a
  | none => incomplete

/-! ### Parts of nodes -/

def part (v : Value) (name : String) : Gen Value := ofOption (v.part? name)

def field (t : Tree) (name : String) : Gen Value := ofOption (t.get? name)

def items (v : Value) : Gen (List Value) := ofOption v.items?

def fieldItems (t : Tree) (name : String) : Gen (List Value) := do items (← field t name)

def itemsIfTrue (v : Value) : Gen (List Value) := if v.truthy then items v else pure []

def key (v : Value) : Gen Key := ofOption v.key?

def textOf (v : Value) : Gen String := ofOption v.text?

def treeOf : Value → Gen Tree
  | .tree t => pure t
  | _ => incomplete

/-! ### Output -/

def emit (i : Instr) : Gen Unit := ExceptT.mk fun s =>
  if s.settings.stop = some s.trace.size then (.error .incomplete, s)
  else (.ok (), { s with trace := s.trace.push i })

def writeAt (buffer : Nat) (v : Value) (location : Option Location) : Gen Unit :=
  emit (.text buffer v location)

def textAt (buffer : Nat) (s : String) (location : Option Location) : Gen Unit :=
  writeAt buffer (.str s) location

def text (buffer : Nat) (s : String) : Gen Unit := textAt buffer s none

def template (buffer : Nat) (s : String) : Gen Unit := emit (.template buffer s false none)

def templateAt (buffer : Nat) (s : String) (location : Option Location) : Gen Unit :=
  emit (.template buffer s false location)

def continuedAt (buffer : Nat) (s : String) (location : Option Location) : Gen Unit :=
  emit (.template buffer s true location)

def hookOf (buffer : Nat) (type : String) (key : HookKey) : Gen Unit := do
  emit (.hook buffer type key (← get).ancestry)

def hook (buffer : Nat) (type key : String) : Gen Unit := hookOf buffer type (.plain key)

def formattedAt (buffer : Nat) (type : String) (v : Value) (key : String)
    (location : Option Location) : Gen Unit := do
  hook buffer type ("before-" ++ key)
  writeAt buffer v location
  hook buffer type ("after-" ++ key)

def formatted (buffer : Nat) (type s key : String) : Gen Unit :=
  formattedAt buffer type (.str s) key none

def bracketAt (buffer : Nat) (type s name : String) (elements : Nat)
    (location : Option Location) : Gen Unit := do
  hookOf buffer type (.bracket "before" name elements)
  textAt buffer s location
  hookOf buffer type (.bracket "after" name elements)

def leftParens (buffer : Nat) (type : String) : Gen Unit := formatted buffer type "(" "left-parens"

def rightParens (buffer : Nat) (type : String) : Gen Unit :=
  formatted buffer type ")" "right-parens"

def comma (buffer : Nat) (type : String) : Gen Unit := formatted buffer type "," "comma"

def operator (buffer : Nat) (type : String) (op : Value) : Gen Unit :=
  formattedAt buffer type op "operator" none

def indent : Gen Unit := emit (.indent 1)

def dedent : Gen Unit := emit (.dedent 1)

def newBuffer : Gen Nat := modifyGet fun s => (s.buffers, { s with buffers := s.buffers + 1 })

def splice (target source : Nat) : Gen Unit := emit (.splice target source)

def retract (index : Nat) : Gen Unit :=
  modify fun s => { s with trace := s.trace.modify index fun
    | .text buffer _ location => .text buffer (.str "") location
    | i => i }

/-! ### Frames and symbols -/

def modifyFrames (f : Frames → Frames) : Gen Unit := modify fun s => { s with frames := f s.frames }

def modifySymbols (f : Symbols → Symbols) : Gen Unit :=
  modify fun s => { s with symbols := f s.symbols }

def newFrame (f : Frame) : Gen FrameId :=
  modifyGet fun s =>
    let (id, frames) := s.frames.new f
    (id, { s with frames })

def declare (frame : FrameId) (name : Key) (v : Variable) : Gen Unit :=
  modifyFrames (·.declare frame name (.data name.toJson) v)

def setContext (frame : FrameId) (f : Context → Context) : Gen Unit :=
  modifyFrames (·.setContext frame f)

def register (f : Symbols → Registration) : Gen Unit := do
  match f (← get).symbols with
  | .done symbols => modify fun s => { s with symbols }
  | .duplicate e => fatal e
  | .failed symbols =>
    modify fun s => { s with symbols }
    incomplete

/-! ### Issues -/

def warns (w : Warning) : Gen Bool := return (← get).diagnostics.warns w

/-- Records an issue about a value; the result is its number, if it is not dropped. -/
def report (severity : Severity) (about : Value) (message : String) : Gen (Option Nat) := do
  let d := (← get).diagnostics
  let (recorded, d) := d.record (← ofOption (d.make? severity about.anchor (.str message)))
  modify fun s => { s with diagnostics := d }
  match recorded with
  | .as id => return some id
  | .dropped => return none
  | .unkeyed => incomplete

def warning (about : Value) (message : String) : Gen Unit := discard (report .warning about message)

def error (about : Value) (message : String) : Gen Unit := do
  if (← report .error about message).isSome then
    let d := (← get).diagnostics
    if ← ofOption d.isOverLimit? then fatal d.tooManyErrors

def note (about : Value) (message : String) : Gen Unit := do
  let d ← ofOption ((← get).diagnostics.note? about.anchor (.str message))
  modify fun s => { s with diagnostics := d }

def park (frame : FrameId) (about : Value) (message : String) (name : Key) (rule : DeferralRule) :
    Gen Bool := do
  match ← report .warning about message with
  | none => return false
  | some issue =>
    modifyFrames fun fs => Diagnostics.park fs frame issue (.str message) (some name) rule
    return true

def settle (frame : FrameId) : Gen Unit := do
  let s ← get
  let (frames, diagnostics, judged) := s.diagnostics.settle s.symbols s.frames frame
  set { s with frames, diagnostics }
  if !judged then incomplete

def fatalAt {α : Type} (location : Option Location) (cause : Cause) : Gen α := do
  let line ← ofOption ((← get).diagnostics.line? (.ofLocation location))
  let f : Fatal := { cause, location, line }
  if f.canShow then fatal f else incomplete

end Gen

end ObjectiveJ
