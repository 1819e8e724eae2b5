import ObjectiveJ.Generate.State
import ObjectiveJ.Syntax.Accessor
import ObjectiveJ.Syntax.Idempotent
import ObjectiveJ.Tree.Same

/-!
# Checks

The checks that are made while code is generated. They write no code; they look at frames and
symbols and report what they find. A name that is assigned to without a declaration becomes a global
here, and a local variable that hides an instance variable takes back each `self.` that was written
for the name.
-/

namespace ObjectiveJ.Check

open Gen

def typeSpellings : Table String String := Symbols.spellings Predefined.types

/-- The question whether another name was meant, if there is a similar one. -/
def didYouMean (suggestion : Option String) : String :=
  match suggestion with
  | some s => if s.isEmpty then "" else s!"; did you mean '{s}'?"
  | none => ""

def suggestion (name : Value) : Gen (Option String) := do
  return (← get).symbols.suggestion (← textOf name) [typeSpellings]

def predefined? (s : GenState) (name : Key) : Option PredefinedGlobal :=
  name.text?.bind s.settings.predefined.get?

/-! ### Global names -/

def ignoreDuplicate (what : String) (identifier earlier : Value) : Gen Bool := do
  if !(← get).diagnostics.ignoreWarnings then
    let name := (← part identifier "name").display
    warning identifier s!"duplicate {what} definition '{name}' is ignored"
    if !earlier.isNull then note earlier "previous definition is here"
  return false

structure Previous where
  description : String
  verb : String := "previously defined as"
  node : Value

/-- Warns that a class was announced in vain. -/
def warnUnnecessary (node : Tree) (name : Value) (known : ClassDef) : Gen Unit := do
  if !(← get).diagnostics.ignoreWarnings then
    warning known.node s!"@class definition '{name.display}' is unnecessary"
    note (.tree node) "superceded by this definition"

/-- Whether a declaration of a class or category may go on; none if the name is new. -/
def isUniqueClass (node : Tree) (name : Value) (known : Option ClassDef) :
    Gen (Option Bool) := do
  let shown := name.display
  let category ← field node "category"
  if !category.isNull then
    if known.isNone then
      error (.tree node) s!"cannot find implementation declaration for '{shown}'"
      return some false
    let category := (← part category "name").display
    if let some earlier := (← get).symbols.lookupClass (.text (shown ++ "+" ++ category)) then
      fatalAt node.location
        (.duplicateDefinition "category" s!"{shown} ({category})" earlier.node.site)
    return some true
  match known with
  | none => return none
  | some known =>
    if !known.isStub then
      fatalAt node.location (.duplicateDefinition "class" shown known.node.site)
    warnUnnecessary node name known
    return some true

def announces (type : NodeType) : Bool :=
  type = .classStatement ∨ type = .globalStatement ∨ type = .typeDefStatement

def conflict (node : Tree) (identifier name : Value) (p : Previous) : Gen Bool := do
  error (if announces node.type then identifier else .tree node)
    s!"'{name.display}' {p.verb} {p.description}"
  if !p.node.isNull then note p.node "definition is here"
  return false

def isUniqueName (s : GenState) (frame : FrameId) (node : Tree) (identifier name : Value)
    (key : Key) : Gen Bool := do
  if let some known := s.symbols.lookupProtocol key then
    if node.type = .protocolDeclaration then
      fatalAt node.location (.duplicateDefinition "protocol" name.display known.node.site)
    return ← conflict node identifier name { description := "a protocol", node := known.node }
  if let some v := s.frames.globalVar frame key then
    if node.type = .globalStatement then return ← ignoreDuplicate "global" identifier v.node
    return ← conflict node identifier name { description := "a global", node := v.node }
  if let some t := s.symbols.typedefs.get? key then
    if node.type = .typeDefStatement then return ← ignoreDuplicate "typedef" identifier t.node
    return ← conflict node identifier name { description := "a typedef", node := t.node }
  if (predefined? s key).isSome then
    if node.type = .globalStatement then
      return ← ignoreDuplicate "predefined global" identifier .null
    return ← conflict node identifier name
      { description := "a predefined global", verb := "is", node := .null }
  return true

/-- Whether the name of an identifier may be declared by a node as a global: it is new, or what it
stands for may be replaced. A harmless repetition is a warning, a conflict is an error. -/
def isUnique (frame : FrameId) (node : Tree) (identifier : Value) : Gen Bool := do
  let name ← part identifier "name"
  let key ← Gen.key name
  let s ← get
  let known := s.symbols.lookupClass key
  if node.type = .classDeclaration then
    match ← isUniqueClass node name known with
    | some answer => return answer
    | none => isUniqueName s frame node identifier name key
  else match known with
    | some known =>
      if node.type = .classStatement then ignoreDuplicate "class" identifier known.node
      else conflict node identifier name { description := "a class", node := known.node }
    | none => isUniqueName s frame node identifier name key

/-! ### Identifiers -/

def owner (f : Frame) : String :=
  if f.functionName.truthy then "function '" ++ f.functionName.display ++ "'"
  else "method '" ++ f.selector.display ++ "'"

/-- The warning about a global that an assignment creates. -/
def warnImplicit (owner : FrameId) (node : Tree) (message : String) (key : Key)
    (before : Option (Option Location)) : Gen Unit := do
  if ← warns .implicitGlobals then
    let recorded ← park owner (.tree node) message key .implicitGlobal
    if let some place := before then
      if recorded then note (.ofLocation place) "did you mean to use a comma here?"

/-- The global that an assignment in a state creates, unless it is known. -/
def createGlobal (s : GenState) (frame : FrameId) (node : Tree) (name : Value) (key : Key)
    (known : Option Variable) : Gen Unit := do
  let varFrame := s.frames.varFrame frame
  let isImplicit := s.frames.isLocal frame && match known with
    | none => true
    | some v => v.kind = .implicitGlobal && v.owner ≠ some varFrame
  if isImplicit then
    let shown := name.display
    let ownerText := ((s.frames.frame? varFrame).map owner).getD ""
    let before := s.ancestry.varBefore
    let question := if before.isNone then s!"; did you mean to use 'var {shown}'?" else ""
    warnImplicit varFrame node
      (s!"implicitly creating the global variable '{shown}' in the {ownerText}" ++ question) key
      before
  if known.isNone || isImplicit then
    declare (s.frames.root frame) key
      { kind := if isImplicit then .implicitGlobal else .globalVar
        node := .tree node
        owner := some varFrame }

def assignment (frame : FrameId) (node : Tree) : Gen Unit := do
  let s ← get
  if (s.frames.context frame).isMemberParent then return
  let name ← field node "name"
  let key ← Gen.key name
  if let some p := predefined? s key then
    if !p.writable.truthy then
      warning (.tree node) "assigning to a read-only predefined global"
    return
  let known := s.frames.lookup frame key
  if known.isNone then
    if !(← isUnique frame node (.tree node)) then return
  createGlobal s frame node name key known

def reference (frame : FrameId) (node : Tree) : Gen Unit := do
  if !(← warns .unknownIdentifiers) then return
  let name ← field node "name"
  let key ← Gen.key name
  let s ← get
  let isKnown := (s.frames.lookup frame key).isSome || (s.symbols.lookupClass key).isSome ||
    (s.symbols.lookupProtocol key).isSome || s.symbols.typedefs.contains key ||
    (predefined? s key).isSome
  if isKnown then return
  let similar ← if (s.frames.context frame).isReceiver then suggestion name else pure none
  discard <| park (s.frames.varFrame frame) (.tree node)
    (s!"reference to unknown identifier '{name.display}'" ++ didYouMean similar)
    key (.unknownIdentifier true)

def identifier (frame : FrameId) (node : Tree) : Gen Unit := do
  if ((← get).frames.context frame).assignment.isText "=" then assignment frame node
  else reference frame node

/-! ### Hidden variables -/

structure Hidden where
  description : String
  node : Value

def hiddenSymbol (s : GenState) (name : Key) : Option Hidden :=
  if let some c := s.symbols.lookupClass name then some ⟨"a class", c.node⟩
  else if let some p := s.symbols.lookupProtocol name then some ⟨"a protocol", p.node⟩
  else if let some t := s.symbols.typedefs.get? name then some ⟨"a typedef", t.node⟩
  else match predefined? s name with
    | some p => if p.ignoreShadow.truthy then none else some ⟨"a predefined global", .null⟩
    | none => none

/-- Takes back each `self.` that has been written for an instance variable which a variable of the
same name hides. -/
def takeBack (name : Value) : List IvarRef → Gen Unit
  | [] => pure ()
  | ref :: rest => do
    retract ref.index
    if ← warns .shadowedVars then
      warning (.ofLocation ref.location)
        s!"reference to local variable '{name.display}' hides an instance variable"
    takeBack name rest

/-- What a declaration in a frame hides that is no variable. An instance variable is hidden by
taking back each `self.` written for it. -/
def hiddenBesides (s : GenState) (frame : FrameId) (name : Value) (key : Key) :
    Gen (Option Hidden) :=
  match hiddenSymbol s key with
  | some hidden => return some hidden
  | none => match s.frames.ivar s.symbols frame key with
    | none => return none
    | some ivar => do
      modifyFrames (·.dropIvarRefs frame key)
      takeBack name (s.frames.ivarRefs frame key)
      return some ⟨"an instance variable", ivar.node⟩

/-- What a declaration in a frame hides. An implicit global that the frame itself has created is
taken back. -/
def hiddenBy (frame : FrameId) (name : Value) : Gen (Option Hidden) := do
  let key ← Gen.key name
  let s ← get
  match s.frames.lookup frame key with
  | none => hiddenBesides s frame name key
  | some v =>
    if v.kind = .implicitGlobal && v.owner = some frame then
      modifyFrames (·.undeclare (s.frames.root frame) key)
      hiddenBesides s frame name key
    else match v.kind.description? with
      | some description => return some ⟨description, v.node⟩
      | none => hiddenBesides s frame name key

def shadowing (frame : FrameId) (identifier name : Value) (entity : String) : Gen Unit := do
  let some hidden ← hiddenBy frame name | return
  if !(← warns .shadowedVars) then return
  warning identifier s!"{entity} '{name.display}' hides {hidden.description}"
  if !hidden.node.isNull then note hidden.node "hidden declaration is here"

/-! ### Types and protocols -/

def unknownProtocol (name : Value) : Gen String := do
  let similar := (← get).symbols.protocolSuggestion (← textOf name)
  return s!"cannot find protocol declaration for '{name.display}'" ++ didYouMean similar

def typeProtocols (protocols : Value) : Gen Unit := do
  for protocol in ← itemsIfTrue protocols do
    let name ← part protocol "name"
    if ((← get).symbols.lookupProtocol (← Gen.key name)).isNone then
      warning protocol (← unknownProtocol name)

def classType (type : Value) : Gen Unit := do
  if (← part type "is_class").truthy then
    let name ← part type "name"
    let key ← Gen.key name
    let s := (← get).symbols
    let isKnown := (s.lookupClass key).isSome || (s.lookupProtocol key).isSome ||
      s.typedefs.contains key || (key.text?.map Predefined.types.contains).getD false
    if !isKnown then
      let similar ← suggestion name
      warning type (s!"unknown type '{name.display}'" ++ didYouMean similar)

def ivarType (type : Value) : Gen Unit := do
  if !type.isNull then
    discard (part type "is_class")
    if ← warns .unknownTypes then classType type

/-- What a message about the result of a method points at: its type, its action, or its first
selector. -/
def resultOf (node : Value) : Gen Value := do
  if !node.isNode .methodDeclaration then return node
  let type ← part node "return_type"
  if type.truthy then return type
  let action ← part node "action"
  if action.truthy then return action
  let selectors ← part node "selectors"
  if !selectors.truthy then return node
  ofOption ((← items selectors).head?)

def typeOrName (param : Value) : Gen Value := do
  let type ← part param "type"
  if type.truthy then return type else part param "id"

/-- What a message about a parameter of an earlier method points at: the parameter, or the method if
it has no parameters of its own. -/
def earlierParam (earlier : Value) (i : Nat) : Gen Value := do
  let params := (earlier.part? "params").getD .null
  if params.truthy then
    if let some param := (← items params)[i]? then return ← typeOrName param
  return earlier

/-- Whether a type may stand where another one was declared: the same, or a class for `id`. -/
def mayReplace (declared actual type : Value) : Gen Bool := do
  if declared.same actual then return true
  if !declared.isText "id" || type.isNull then return false
  return (← part type "is_class").truthy

def parameterConflicts (selector : String) (earlier : Value) :
    Nat → List Value → List Value → List Value → Gen Unit
  | _, [], _, _ => pure ()
  | i, declared :: moreDeclared, actual :: moreActual, param :: more => do
    if !(← mayReplace declared actual (← part param "type")) then
      warning (← typeOrName param)
        (s!"conflicting parameter type in declaration of '{selector}': " ++
          s!"'{actual.display}' vs '{declared.display}'")
      note (← earlierParam earlier i) "previous declaration is here"
    parameterConflicts selector earlier (i + 1) moreDeclared moreActual more
  | _, _, _, _ => incomplete

def declaredTypes (node : Tree) (returnType : Value) : Gen Unit := do
  if ← warns .unknownTypes then
    if !returnType.isNull then classType returnType
    for param in ← fieldItems node "params" do
      let type ← part param "type"
      if !type.isNull then classType type

def overriding (node : Tree) (selector : String) (types : List Value)
    (overridden : Option Method) : Gen Unit := do
  let returnType ← field node "return_type"
  if let some earlier := overridden then
    if ← warns .parameterTypes then
      match earlier.types, types with
      | declared :: moreDeclared, actual :: moreActual =>
        if !(← mayReplace declared actual returnType) then
          warning (← resultOf (.tree node))
            (s!"conflicting return type in declaration of '{selector}': " ++
              s!"'{actual.display}' vs '{declared.display}'")
          note (← resultOf earlier.node) "previous declaration is here"
        parameterConflicts selector earlier.node 0 moreDeclared moreActual
          (← fieldItems node "params")
      | _, _ => incomplete
  declaredTypes node returnType

def conformance (classId : ClassId) (protocols : Value) : Gen Unit := do
  if !(← warns .unimplementedProtocolMethods) then return
  for protocol in ← items protocols do
    let key ← Gen.key (← part protocol "name")
    let s := (← get).symbols
    if let some id := s.protocols.get? key then
      for r in ← ofOption (s.missing? classId [id]) do
        let selector := r.method.selector.display
        warning protocol
          s!"method '{selector}' in protocol '{r.protocol.name.display}' not implemented"
        note r.method.node s!"method '{selector}' declared here"

/-- A class may not define the setter of a variable that it declares as readonly. -/
def setterConflicts (classId : ClassId) (node : Tree) (selector : Value) : Gen Unit := do
  if !(← field node "method_type").isText "-" then return
  let selector ← textOf selector
  if !Text.endsWith [':'] selector.toList then return
  let ivars := (((← get).symbols.class? classId).map (·.ivars.values)).getD []
  for ivar in ivars do
    if !ivar.accessors.isNull then
      if (← part ivar.accessors "readonly").truthy then
        if (← ofOption (Accessors.setter? ivar.accessors ivar.name)) = selector then
          error (.tree node)
            (s!"setter method '{selector}' cannot be defined for the readonly ivar " ++
              s!"'{ivar.name.display}'")
          note ivar.node "ivar declaration is here"

/-! ### Dereferences -/

def dereference (operand : Value) : Gen Unit := do
  if !(← ofOption operand.idempotent?) then
    fatalAt (← treeOf operand).location .effectfulDereference

end ObjectiveJ.Check
