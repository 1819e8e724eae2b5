import ObjectiveJ.Symbol.Lookup

/-!
# Frames

The variables that can be seen at a place are kept in frames: one for the whole program, one for its
file, and one for each function, class, protocol and method. A frame is known by its number, and its
parent has a smaller number, so the way to the root ends. `chain` is that way, and all questions
about what is around a place are questions about the chain.
-/

namespace ObjectiveJ

abbrev FrameId := Nat

inductive FrameKind where
  | global
  | file
  | function
  | classBody
  | protocolBody
  | method
  deriving Repr, DecidableEq

namespace FrameKind

def name : FrameKind → String
  | global => "global"
  | file => "file"
  | function => "function"
  | classBody => "class"
  | protocolBody => "protocol"
  | method => "method"

def all : List FrameKind := [global, file, function, classBody, protocolBody, method]

def isLocal : FrameKind → Bool
  | function => true
  | method => true
  | _ => false

def ownsVars (k : FrameKind) : Bool := k.isLocal || k = file

end FrameKind

inductive VarKind where
  | globalVar
  | atGlobal
  | implicitGlobal
  | fileVar
  | localVar
  | functionParameter
  | methodParameter
  | function
  | functionName
  | self
  | cmd
  deriving Repr, DecidableEq

namespace VarKind

def name : VarKind → String
  | globalVar => "global var"
  | atGlobal => "@global"
  | implicitGlobal => "implicit global"
  | fileVar => "file var"
  | localVar => "local var"
  | functionParameter => "function parameter"
  | methodParameter => "method parameter"
  | function => "function"
  | functionName => "function name"
  | self => "self"
  | cmd => "_cmd"

def all : List VarKind := [
  globalVar, atGlobal, implicitGlobal, fileVar, localVar, functionParameter, methodParameter,
  function, functionName, self, cmd]

/-- What a warning calls a variable of this kind that is hidden; others are not mentioned. -/
def description? : VarKind → Option String
  | globalVar => some "a global"
  | atGlobal => some "a global"
  | implicitGlobal => some "an implicitly declared global"
  | fileVar => some "a file variable"
  | localVar => some "a variable in a containing closure"
  | functionParameter => some "a function parameter"
  | methodParameter => some "a method parameter"
  | _ => none

def isGlobal : VarKind → Bool
  | globalVar => true
  | atGlobal => true
  | implicitGlobal => true
  | _ => false

end VarKind

/-- A variable: what declared it, the node that does, and the frame that an implicit global or
`self` belongs to. -/
structure Variable where
  kind : VarKind
  node : Value := .null
  owner : Option FrameId := none

/-- A `self.` that was written in front of an instance variable: the number of the instruction that
wrote it, and the place of the variable. -/
structure IvarRef where
  index : Nat
  location : Option Location

inductive DeferralRule where
  /-- The frame has a variable of the name that is no implicit global. -/
  | implicitGlobal
  /-- The frame has a variable of the name, or there is a global of the name, or a class if classes
  count. -/
  | unknownIdentifier (classesCount : Bool)
  deriving Repr, DecidableEq

structure Parked where
  issue : Nat
  message : Value
  frame : FrameId
  /-- The name that the warning is about, if it is anchored at one. -/
  name : Option Key
  rule : DeferralRule

structure Context where
  assignment : Value := .null
  isMemberParent : Bool := false
  isMember : Bool := false
  isPropertyKey : Bool := false
  isReceiver : Bool := false

structure Frame where
  kind : FrameKind
  parent : Option FrameId := none
  vars : NameTable Variable := {}
  classId : Option ClassId := none
  protocolId : Option ProtocolId := none
  methodMarker : Value := .null
  selector : Value := .null
  functionName : Value := .null
  optionalMethods : Bool := false
  /-- What `super` stands for in the methods of the instances and of the class. -/
  superRef : Value := .null
  superMetaRef : Value := .null
  level : Int := 0
  maxLevel : Int := 0
  ivarRefs : NameTable (List IvarRef) := {}
  selfAssigned : Bool := false
  parked : List Parked := []
  context : Context := {}

structure MethodOwner where
  classId : Option ClassId
  protocolId : Option ProtocolId
  optionalMethods : Bool

structure Frames where
  store : Array Frame := #[]

namespace Frames

variable (fs : Frames) (id : FrameId)

def frame? : Option Frame := fs.store[id]?

def methodOwner? : Option MethodOwner :=
  (fs.frame? id).map fun f => ⟨f.classId, f.protocolId, f.optionalMethods⟩

def new (f : Frame) : FrameId × Frames := (fs.store.size, { fs with store := fs.store.push f })

def modify (f : Frame → Frame) : Frames := { fs with store := fs.store.modify id f }

def chain (fs : Frames) (id : FrameId) : List (FrameId × Frame) :=
  match fs.frame? id with
  | none => []
  | some f =>
    (id, f) :: match f.parent with
      | none => []
      | some up => if up < id then chain fs up else []
termination_by id

def root : FrameId := ((fs.chain id).getLast?.map (·.1)).getD id

def isLocal : Bool := (fs.chain id).any (·.2.kind.isLocal)

def currentClass : Option ClassId := (fs.chain id).findSome? (·.2.classId)

def currentProtocol : Option ProtocolId := (fs.chain id).findSome? (·.2.protocolId)

def currentMethod : Option (FrameId × Frame) := (fs.chain id).find? (·.2.kind = .method)

def currentMarker : Value := ((fs.currentMethod id).map (·.2.methodMarker)).getD .null

/-- The frame that owns the variables declared in a frame: the nearest function, method or file,
else the root. -/
def varFrame : FrameId :=
  match (fs.chain id).find? (·.2.kind.ownsVars) with
  | some (owner, _) => owner
  | none => fs.root id

def superRef (marker : Value) : Value :=
  match (fs.chain id).find? (·.2.classId.isSome) with
  | none => .null
  | some (_, f) => if marker.isText "+" then f.superMetaRef else f.superRef

/-- The first variable of a name on a chain; the search may end at the first method. -/
def lookupIn (name : Key) (stopAtMethod : Bool) : List (FrameId × Frame) → Option Variable
  | [] => none
  | (_, f) :: rest =>
    match f.vars.get? name with
    | some v => some v
    | none => if stopAtMethod && f.kind = .method then none else lookupIn name stopAtMethod rest

def lookup (name : Key) : Option Variable := lookupIn name false (fs.chain id)

def lookupInMethod (name : Key) : Option Variable := lookupIn name true (fs.chain id)

def localVar (name : Key) : Option Variable := (fs.frame? id).bind (·.vars.get? name)

def globalVar (name : Key) : Option Variable :=
  (fs.localVar (fs.root id) name).filter (·.kind.isGlobal)

def declare (key : Key) (name : Value) (v : Variable) : Frames :=
  fs.modify id fun f => { f with vars := f.vars.set key name v }

def undeclare (name : Key) : Frames := fs.modify id fun f => { f with vars := f.vars.erase name }

/-- The instance variable that a name stands for in a method; a category has those of its base. -/
def ivar (symbols : Symbols) (id : FrameId) (name : Key) : Option Ivar :=
  if (fs.currentMethod id).isNone then none
  else do
    let classId ← fs.currentClass id
    let c ← symbols.class? classId
    (← symbols.findIvar (c.base.getD classId) name).map (·.1)

def addIvarRefs (key : Key) (name : Value) (refs : List IvarRef) : Frames :=
  fs.modify id fun f =>
    { f with ivarRefs := f.ivarRefs.set key name ((f.ivarRefs.get? key).getD [] ++ refs) }

def ivarRefs (name : Key) : List IvarRef := ((fs.frame? id).bind (·.ivarRefs.get? name)).getD []

def dropIvarRefs (name : Key) : Frames :=
  fs.modify id fun f => { f with ivarRefs := f.ivarRefs.erase name }

def copyIvarRefs : Frames :=
  match fs.frame? id with
  | some { parent := some up, ivarRefs, .. } =>
    ivarRefs.entries.entries.foldl
      (fun fs (key, name, refs) => fs.addIvarRefs up key name refs) fs
  | _ => fs

def takeTemp : Int × Frames :=
  let level := ((fs.frame? id).map (·.level)).getD 0 + 1
  (level, fs.modify id fun f => { f with level, maxLevel := max f.maxLevel level })

def dropTemp : Frames := fs.modify id fun f => { f with level := f.level - 1 }

def context : Context := ((fs.frame? id).map (·.context)).getD {}

def setContext (f : Context → Context) : Frames :=
  fs.modify id fun frame => { frame with context := f frame.context }

def parked : List Parked := ((fs.frame? (fs.root id)).map (·.parked)).getD []

def setParked (parked : List Parked) : Frames := fs.modify (fs.root id) fun f => { f with parked }

end Frames

end ObjectiveJ
