import ObjectiveJ.Frame
import ObjectiveJ.Issue
import ObjectiveJ.Warning

/-!
# Diagnostics of a unit

Issues are kept in the order in which they are found. An issue that repeats the severity, message
and place of an earlier one is dropped, and so are warnings if they are ignored. A note goes to the
issue that was reported just before it, and is dropped with it.

Two warnings are *parked* until the frame that they belong to ends, because a later declaration in
that frame may show them to be unfounded. Then `settle` withdraws them.

An issue cannot be made if its source line cannot be looked for, and it cannot be recorded if its
message or its place has no key.
-/

namespace ObjectiveJ

structure IssueKey where
  severity : Severity
  message : Key
  place : Key
  deriving DecidableEq

/-- The issues of a unit and what is needed to report more of them. -/
structure Diagnostics where
  lines : Option (Array String) := none
  /-- More errors than this end the unit; there is no limit if it is not positive. -/
  maxErrors : Json := .int 20
  /-- The switches of the warnings by the keys of their names. -/
  warnings : Table Key Json := ⟨Warning.all.map fun w => (.text w.name, .bool w.onByDefault)⟩
  ignoreWarnings : Bool := false
  issues : List (Nat × Issue) := []
  seen : List IssueKey := []
  last : Option Nat := none
  count : Nat := 0

def Issue.key? (i : Issue) : Option IssueKey := do
  return ⟨i.severity, ← i.message.key?, ← i.place.key?⟩

/-- What became of an issue that is to be recorded. -/
inductive Recorded where
  | as (id : Nat)
  | dropped
  | unkeyed

namespace Diagnostics

variable (d : Diagnostics)

def ofSource (source : Option String) : Diagnostics :=
  { lines := source.map fun s => ((Text.lines s.toList).map String.ofList).toArray }

/-- The switch of a warning, as it was given; a name must have a key, unless all warnings are
ignored. -/
def switchOf? (name : Value) : Option Json :=
  if d.ignoreWarnings then some (.bool false)
  else do return (d.warnings.get? (← name.key?)).getD (.bool false)

def warns (w : Warning) : Bool :=
  ((d.switchOf? (.str w.name)).getD (.bool false)).truthy

/-- The source line of a place, nothing if it is not known. None stands for a place that cannot be
looked for. -/
def line? (place : Value) : Option Value :=
  match place, d.lines with
  | .null, _ => some .null
  | _, none => some .null
  | .location l, some lines => do
    return match ← l.lineIn? lines with
      | some line => .str line
      | none => .null
  | _, some _ => none

def list : List Issue := d.issues.map (·.2)

def errorCount : Nat := Issue.errors d.list

def warningCount : Nat := Issue.warnings d.list

def hasErrors : Bool := d.list.any Issue.isError

def make? (severity : Severity) (place message : Value) : Option Issue := do
  return { severity, message, place, line := ← d.line? place }

def record (i : Issue) : Recorded × Diagnostics :=
  let d := { d with last := none }
  if i.isWarning && d.ignoreWarnings then (.dropped, d)
  else match i.key? with
    | none => (.unkeyed, d)
    | some key =>
      if d.seen.contains key then (.dropped, d)
      else (.as d.count,
        { d with
          issues := d.issues ++ [(d.count, i)]
          seen := key :: d.seen
          last := some d.count
          count := d.count + 1 })

/-- Whether there are more errors than allowed; none if the limit is no number. -/
def isOverLimit? : Option Bool :=
  match d.maxErrors with
  | .float x => some (0.0 < x && x < d.errorCount.toFloat)
  | limit => limit.whole?.map fun n => 0 < n && n < (d.errorCount : Int)

def tooManyErrors : Fatal :=
  { cause := .tooManyErrors d.maxErrors, location := none }

def makeNote? (place message : Value) : Option Note := do
  return { message, place, line := ← d.line? place }

def note? (place message : Value) : Option Diagnostics :=
  match d.last with
  | none => some d
  | some id => do
    let n ← d.makeNote? place message
    return { d with issues := d.issues.map fun (k, i) =>
      (k, if k = id then { i with notes := i.notes ++ [n] } else i) }

def ofFatal? (f : Fatal) : Option Issue := do
  let line ← if f.line.truthy then pure f.line else d.line? (.ofLocation f.location)
  let notes ← f.cause.notes.mapM fun (location, text) => d.makeNote? (.ofLocation location) text
  return {
    severity := .error
    message := f.cause.message
    place := .ofLocation f.location
    line
    notes }

def addFatal (i : Issue) : Diagnostics :=
  { d with issues := d.issues ++ [(d.count, i)], last := none, count := d.count + 1 }

def withdraw (id : Nat) : Diagnostics :=
  match d.issues.lookup id with
  | none => d
  | some i =>
    { d with
      issues := d.issues.filter fun (k, _) => k ≠ id
      seen := d.seen.filter fun key => some key ≠ i.key? }

/-- Whether the end of a frame shows a warning about a name to be unfounded. -/
def isUnfounded (fs : Frames) (symbols : Symbols) (frame : FrameId) (name : Key) :
    DeferralRule → Bool
  | .implicitGlobal => match fs.localVar frame name with
    | some v => v.kind ≠ .implicitGlobal
    | none => false
  | .unknownIdentifier classesCount =>
    (fs.localVar frame name).isSome || (fs.globalVar frame name).isSome ||
      (classesCount && (symbols.lookupClass name).isSome)

/-- Goes through the parked warnings of a frame that ends. Those that are unfounded are withdrawn.
A warning that names nothing cannot be judged, and the rest is left alone. The last part is whether
all were judged. -/
def settleAll (symbols : Symbols) (frame : FrameId) (fs : Frames) (d : Diagnostics) :
    List Parked → Frames × Diagnostics × Bool
  | [] => (fs, d, true)
  | p :: rest =>
    if p.frame ≠ frame then settleAll symbols frame fs d rest
    else match p.name with
      | none => (fs, d, false)
      | some name =>
        if isUnfounded fs symbols frame name p.rule then
          let others := (fs.parked frame).filter (·.issue ≠ p.issue)
          settleAll symbols frame (fs.setParked frame others) (d.withdraw p.issue) rest
        else settleAll symbols frame fs d rest

def settle (symbols : Symbols) (fs : Frames) (frame : FrameId) :
    Frames × Diagnostics × Bool :=
  settleAll symbols frame fs d (fs.parked frame)

def park (fs : Frames) (frame : FrameId) (issue : Nat) (message : Value) (name : Option Key)
    (rule : DeferralRule) : Frames :=
  fs.setParked frame (fs.parked frame ++ [⟨issue, message, frame, name, rule⟩])

def report : String := Issue.report d.list

def canReport : Bool := d.list.all Issue.canShow

end Diagnostics

end ObjectiveJ
