import ObjectiveJ.Fatal
import ObjectiveJ.NameTable

/-!
# Classes, protocols and methods

What is known about the declarations of a program. A class that has only been announced is a
*stub*. A category is a class of its own that extends another one, its base. Each declaration keeps
the node that it comes from, because messages point at it. Names and types are what the program
gives for them, texts as a rule.

Classes and protocols refer to each other by their numbers. A `Definition` is one of the two, and
whoever follows a number may meet the other one than expected.
-/

namespace ObjectiveJ

abbrev DefinitionId := Nat

abbrev ClassId := DefinitionId

abbrev ProtocolId := DefinitionId

inductive MethodKind where
  | ofInstance
  | ofClass
  deriving Repr, DecidableEq

namespace MethodKind

def ofMarker (marker : Value) : MethodKind := if marker.isText "-" then .ofInstance else .ofClass

def marker : MethodKind → String
  | .ofInstance => "-"
  | .ofClass => "+"

end MethodKind

/-- The signature of a method: the types are that of the result and then those of the parameters,
of which there are as many as colons in the selector. -/
structure Method where
  selector : Value
  key : Key
  types : List Value
  node : Value := .null
  deriving Inhabited

structure ArityError where
  selector : String
  needed : Nat
  given : Nat
  deriving Repr, DecidableEq

def ArityError.message (e : ArityError) : String :=
  let needed := (e.needed : Int).repr
  let given := (e.given : Int).repr
  s!"method '{e.selector}' needs {needed} types, got {given}"

namespace Method

/-- How many colons a selector has; in a list each item that is a colon counts. -/
def colons? : Value → Option Nat
  | .str s => some (s.toList.count ':')
  | .list items => some (items.countP (·.isText ":"))
  | .tuple items => some (items.countP (·.isText ":"))
  | _ => none

/-- A method, if the number of types fits the selector. There is none for a selector without colons
to count or without a key. -/
def make? (selector : Value) (types : List Value) (node : Value) :
    Option (Except ArityError Method) := do
  let needed := (← colons? selector) + 1
  if types.length ≠ needed then return .error ⟨selector.display, needed, types.length⟩
  return .ok { selector, key := ← selector.key?, types, node }

end Method

structure Ivar where
  name : Value
  type : Value
  isOutlet : Value := .bool false
  accessors : Value := .null
  node : Value := .null
  deriving Inhabited

structure Typedef where
  name : Value
  node : Value := .null
  deriving Inhabited

structure ClassDef where
  name : Value
  superclass : Option DefinitionId := none
  category : Value := .null
  base : Option DefinitionId := none
  node : Value := .null
  ivars : Table Key Ivar := {}
  instanceMethods : Table Key Method := {}
  classMethods : Table Key Method := {}
  protocols : NameTable DefinitionId := {}
  deriving Inhabited

namespace ClassDef

def isStub (c : ClassDef) : Bool := c.node.isNode .identifier || c.node.isNode .classStatement

/-- The name under which a class is registered; a category without a name is registered as its
class. -/
def registeredName (c : ClassDef) : Value :=
  if c.category.truthy then .str (c.name.display ++ "+" ++ c.category.display) else c.name

def title (c : ClassDef) : String :=
  if c.category.truthy then c.name.display ++ " (" ++ c.category.display ++ ")"
  else c.name.display

def methods (c : ClassDef) : MethodKind → Table Key Method
  | .ofInstance => c.instanceMethods
  | .ofClass => c.classMethods

def mapMethods (c : ClassDef) (kind : MethodKind)
    (f : Table Key Method → Table Key Method) : ClassDef :=
  match kind with
  | .ofInstance => { c with instanceMethods := f c.instanceMethods }
  | .ofClass => { c with classMethods := f c.classMethods }

end ClassDef

structure ProtocolDef where
  name : Value
  node : Value := .null
  incorporated : List DefinitionId := []
  requiredInstance : Table Key Method := {}
  requiredClass : Table Key Method := {}
  optionalInstance : Table Key Method := {}
  optionalClass : Table Key Method := {}
  deriving Inhabited

namespace ProtocolDef

def required (p : ProtocolDef) : MethodKind → Table Key Method
  | .ofInstance => p.requiredInstance
  | .ofClass => p.requiredClass

def optional (p : ProtocolDef) : MethodKind → Table Key Method
  | .ofInstance => p.optionalInstance
  | .ofClass => p.optionalClass

def ownMethod (p : ProtocolDef) (selector : Key) (kind : MethodKind) : Option Method :=
  ((p.required kind).get? selector).or ((p.optional kind).get? selector)

def addMethod (p : ProtocolDef) (m : Method) (kind : MethodKind) (isRequired : Bool) :
    ProtocolDef :=
  match kind, isRequired with
  | .ofInstance, true => { p with requiredInstance := p.requiredInstance.set m.key m }
  | .ofClass, true => { p with requiredClass := p.requiredClass.set m.key m }
  | .ofInstance, false => { p with optionalInstance := p.optionalInstance.set m.key m }
  | .ofClass, false => { p with optionalClass := p.optionalClass.set m.key m }

end ProtocolDef

inductive Definition where
  | classDef (c : ClassDef)
  | protocolDef (p : ProtocolDef)

namespace Definition

def name : Definition → Value
  | classDef c => c.name
  | protocolDef p => p.name

def node : Definition → Value
  | classDef c => c.node
  | protocolDef p => p.node

def class? : Definition → Option ClassDef
  | classDef c => some c
  | protocolDef _ => none

def protocol? : Definition → Option ProtocolDef
  | protocolDef p => some p
  | classDef _ => none

def ownMethod (selector : Key) (kind : MethodKind) : Definition → Option Method
  | classDef c => (c.methods kind).get? selector
  | protocolDef p => p.ownMethod selector kind

end Definition

end ObjectiveJ
