import ObjectiveJ.Generate.Message

/-!
# Classes, protocols and methods

The code of declarations. The methods of a class go into buffers of their own, one for those of the
instances and one for those of the class, and are added to the class at its end. A class asks for
methods to read and set its variables by accessor clauses; those that it does not declare itself are
written for it.
-/

namespace ObjectiveJ.Declaration

open Gen

def methodBuffers : Gen MethodBuffers := do ofOption (← get).methods

def openMethods : Gen Unit := do
  let instanceMethods ← newBuffer
  let classMethods ← newBuffer
  modify fun s => { s with methods := some ⟨⟨instanceMethods, true⟩, ⟨classMethods, true⟩⟩ }

def closeMethods : Gen Unit := modify fun s => { s with methods := none }

/-- Starts a method in the buffer for its kind: a comma follows the method before it. -/
def startMethod (kind : MethodKind) : Gen Nat := do
  let both ← methodBuffers
  if !(both.of kind).isEmpty then text (both.of kind).buffer ",\n"
  modify fun s => { s with methods := some (both.mark kind) }
  return (both.of kind).buffer

def quotedList (types : List Value) : String :=
  ", ".intercalate (types.map fun t => "\"" ++ t.display ++ "\"")

def functionName (className selector : String) : String :=
  "$" ++ className ++ "__" ++
    String.ofList (selector.toList.map fun c => if c = ':' then '_' else c)

def protocolLookup (declare variableName name : String) : String :=
  s!"{declare}{variableName} = objj_getProtocol(\"{name}\");\n\nif (!{variableName})\n" ++
    s!"→throw new ReferenceError(\"Cannot find protocol declaration for '{name}'\");\n\n"

def shownName? (t : Tree) (name : String) : Gen (Option String) := do
  let identifier ← field t name
  if identifier.isNull then return none else return some (← part identifier "name").display

/-! ### Instance variables and accessors -/

def ivarType (buffer : Nat) (typeName : Value) : Gen Unit := do
  if (← get).settings.typeSignatures then text buffer s!", \"{typeName.display}\""

/-- Writes an instance variable of a class and records it. The result is whether it has an accessor
clause. -/
def recordIvar (id : ClassId) (buffer : Nat) (declaration name : Value) (isLast : Bool)
    (typeName : Value) : Gen Bool := do
  text buffer (if isLast then ")" else "),")
  let accessors ← part declaration "accessors"
  let isOutlet ← part declaration "is_outlet"
  let key ← Gen.key name
  let ivar : Ivar := { name, type := typeName, isOutlet, accessors, node := declaration }
  modifySymbols (·.modifyClass id fun c => { c with ivars := c.ivars.set key ivar })
  return !accessors.isNull

def writeIvar (id : ClassId) (buffer : Nat) (declaration identifier name : Value) (isLast : Bool)
    (type typeName : Value) : Gen Bool := do
  Check.ivarType type
  templateAt buffer s!"\nnew objj_ivar(\"{name.display}\"" identifier.site
  ivarType buffer typeName
  recordIvar id buffer declaration name isLast typeName

def addIvar (id : ClassId) (buffer : Nat) (declaration identifier name : Value) (isLast : Bool) :
    Gen Bool := do
  let type ← part declaration "type"
  let typeName ← if type.isNull then pure (.str "id") else part type "name"
  writeIvar id buffer declaration identifier name isLast type typeName

/-- Writes the instance variables of a class and records them, but for those that an earlier
declaration or a superclass has. The result is whether one of them has an accessor clause. -/
def addIvars (classId : ClassId) (buffer : Nat) : List Value → Gen Bool
  | [] => return false
  | declaration :: rest => do
    let identifier ← part declaration "id"
    let name ← part identifier "name"
    let s ← get
    let recorded ← match ← ofOption (s.symbols.findIvar classId (← Gen.key name)) with
      | some (earlier, owner) => do
        let className := ((s.symbols.class? classId).map (·.name.display)).getD ""
        error identifier
          s!"redeclaration of instance variable '{name.display}' in class '{className}'"
        note earlier.node s!"previous declaration is here, in class '{owner.name.display}'"
        pure false
      | none => addIvar classId buffer declaration identifier name rest.isEmpty
    return (← addIvars classId buffer rest) || recorded

def makeMethod (selector : Value) (types : List Value) (node : Value) : Gen Method := do
  match ← ofOption (Method.make? selector types node) with
  | .error e => throw (.arity e)
  | .ok method => return method

def accessorName (settings : Settings) (className : String) (selector : Value) : Gen String :=
  if settings.methodNames then return " " ++ functionName className (← textOf selector)
  else return ""

def accessorText (settings : Settings) (selector : Value) (function comment params body : String)
    (types : List Value) : String :=
  let list := quotedList types
  let signature := if settings.typeSignatures then s!",\n// argument types\n[{list}]" else ""
  s!"\n{comment}\nnew objj_method(sel_getUid(\"{selector.display}\"),\n" ++
    s!"function{function}(self, _cmd{params})\n\x7b\n→{body}\n\x7d{signature})"

def writeAccessor (className : String) (selector : Value) (comment params : String)
    (body : Bool → String) (types : List Value) : Gen Unit := do
  let settings := (← get).settings
  let function ← accessorName settings className selector
  let buffer ← startMethod .ofInstance
  template buffer
    (accessorText settings selector function comment params (body settings.inlineMsgSend) types)

def accessor (classId : ClassId) (ivar : Ivar) (selector : Value) (comment params : String)
    (body : Bool → String) (types : List Value) : Gen Unit := do
  let c ← ofOption ((← get).symbols.class? classId)
  if (c.instanceMethods.get? (← Gen.key selector)).isSome then return
  let method ← makeMethod selector types ivar.node
  modifySymbols (·.addMethod classId method .ofInstance)
  writeAccessor c.name.display selector comment params body types

def getter (classId : ClassId) (ivar : Ivar) (attributes : String) : Gen Unit := do
  let selector ← ofOption (Accessors.getter? ivar.accessors ivar.name)
  let name := ivar.name.display
  accessor classId ivar selector
    (s!"// {name} @accessors{attributes} [getter]\n" ++
      s!"// - ({ivar.type.display}){selector.display}")
    "" (fun _ => s!"return self.{name};") [ivar.type]

/-- The body of a setter that stores a copy. A call that is written in place has parentheses around
the function, and so has whatever reads like it. -/
def copyBody (name : String) (isInline : Bool) : String :=
  let call := Message.dispatch isInline "newValue" "copy" 0
  let body := s!"if (self.{name} !== newValue)\n→→/* {name} = [newValue copy] */ " ++
    s!"self.{name} = newValue == null ? null : {call}newValue, \"copy\");"
  if isInline then
    String.ofList (Text.replace call.toList ('(' :: call.toList) body.toList)
  else body

def setter (classId : ClassId) (ivar : Ivar) (attributes : String) : Gen Unit := do
  let selector ← ofOption (Accessors.setter? ivar.accessors ivar.name)
  let name := ivar.name.display
  let copies := (← part ivar.accessors "copy").truthy
  let body (isInline : Bool) := if copies then copyBody name isInline
    else s!"self.{name} = newValue;"
  accessor classId ivar (.str selector)
    (s!"// {name} @accessors{attributes} [setter]\n" ++
      s!"// - (void){selector}({ivar.type.display})newValue")
    ", newValue" body [.str "void", ivar.type]

def addAccessor (classId : ClassId) (ivar : Ivar) : Gen Unit := do
  let attributes ← ofOption (Accessors.attributes? ivar.accessors)
  getter classId ivar attributes
  if (← part ivar.accessors "readonly").truthy then
    let given ← part ivar.accessors "setter"
    if !given.isNull then error given "setter cannot be specified for a readonly ivar"
  else setter classId ivar attributes

/-- Writes the accessors of the variables of a class; only the declaration that was recorded counts,
which is the first one of its name. -/
def addAccessors (classId : ClassId) (seen : List Key) : List Value → Gen Unit
  | [] => pure ()
  | declaration :: rest => do
    let key ← Gen.key (← part (← part declaration "id") "name")
    if !(← part declaration "accessors").isNull && !seen.contains key then
      if let some ivar := ((← get).symbols.class? classId).bind (·.ivars.get? key) then
        addAccessor classId ivar
    addAccessors classId (key :: seen) rest

/-! ### Classes -/

def superclass? (t : Tree) (name : Value) : Gen (Option ClassId) := do
  let superclass ← field t "superclass"
  if superclass.isNull then return none
  let up ← part superclass "name"
  let key ← Gen.key up
  let symbols := (← get).symbols
  let unknown := fatalAt superclass.site (.unknownSuperclass up.display name.display)
  match symbols.classId? key, symbols.lookupClass key with
  | some id, some c => if c.isStub then unknown else return some id
  | _, _ => unknown

/-- The class that a declaration is about: a category of a known class, or a class whose superclass
must be known. -/
def newClass (t : Tree) (name : Value) : Gen ClassId := do
  let category ← field t "category"
  let c : ClassDef ← if category.isNull then do
      pure { name, superclass := ← superclass? t name, node := .tree t }
    else do
      let symbols := (← get).symbols
      let base ← ofOption (symbols.classId? (← Gen.key name))
      pure
        { name, superclass := (symbols.class? base).bind (·.superclass)
          category := ← part category "name", base := some base, node := .tree t }
  modifyGet fun s =>
    let (id, symbols) := s.symbols.new (.classDef c)
    (id, { s with symbols })

def addProtocols (classId : ClassId) : List Value → Gen Unit
  | [] => pure ()
  | protocol :: rest => do
    let name ← part protocol "name"
    let key ← Gen.key name
    match (← get).symbols.protocols.get? key with
    | some id => modifySymbols (·.modifyClass classId fun c =>
      { c with protocols := c.protocols.set key name id })
    | none => error protocol (← Check.unknownProtocol name)
    addProtocols classId rest

def protocolNames (protocols : List Value) : Gen (List String) :=
  protocols.mapM fun protocol => do textOf (← part protocol "name")

/-- Starts the code of a class; the result is the comment that also ends it. -/
def startClass (t : Tree) (name : String) (protocols : List String) (buffer : Nat) :
    Gen String := do
  match ← shownName? t "category" with
  | some category =>
    let comment := s!"@implementation {name} ({category})"
    continuedAt buffer
      (s!"// {comment}\nvar $the_class = objj_getClass(\"{name}\");\n\n" ++
        s!"if (!$the_class)\n→throw new ReferenceError(\"Cannot find declaration for class " ++
        s!"'{name}'\");\n") t.location
    return comment
  | none =>
    let up ← shownName? t "superclass"
    let inherits := match up with
      | some up => " : " ++ up
      | none => ""
    let list := ", ".intercalate protocols
    let conforms := if protocols.isEmpty then "" else s!" <{list}>"
    let comment := s!"@implementation {name}{inherits}{conforms}"
    let upText := up.getD "Nil"
    continuedAt buffer
      (s!"// {comment}\nvar $the_class = objj_allocateClassPair({upText}, \"{name}\");\n")
      t.location
    return comment

def addMethods (title target : String) (m : MethodBuffer) (buffer : Nat) : Gen Unit := do
  if m.isEmpty then return
  template buffer s!"\n\n// {title} methods\nclass_addMethods({target},\n["
  splice buffer m.buffer
  template buffer "\n]);"

def writeProtocols (buffer : Nat) (isFirst : Bool) : List String → Gen Unit
  | [] => pure ()
  | name :: rest => do
    template buffer
      (protocolLookup (if isFirst then "var " else "") "$the_protocol" name ++
        "class_addProtocol($the_class, $the_protocol);\n")
    writeProtocols buffer false rest

def writeIvars (classId : ClassId) (ivars : Value) (buffer : Nat) : Gen Bool := do
  if !ivars.truthy then return false
  template buffer "\n\nclass_addIvars($the_class,\n["
  indent
  let hasAccessors ← addIvars classId buffer (← items ivars)
  dedent
  template buffer "\n]);"
  return hasAccessors

def endClass (id : ClassId) (protocols : Value) (comment : String) (buffer : Nat) : Gen Unit := do
  let methods ← methodBuffers
  addMethods "Instance" "$the_class" methods.instanceMethods buffer
  addMethods "Class" "$the_class.isa" methods.classMethods buffer
  template buffer ("\n// @end: " ++ comment)
  if protocols.truthy then Check.conformance id protocols
  closeMethods

/-- What follows the registration of a class. -/
def classMembers (walk : Walker) (t : Tree) (id : ClassId) (ivars protocols : Value)
    (comment : String) (frame : FrameId) (site : Site) (hasAccessors : Bool) : Gen Unit := do
  inTurn walk (← fieldItems t "body") { site with frame }
  if hasAccessors then
    indent
    addAccessors id [] (← items ivars)
    dedent
  endClass id protocols comment site.buffer

def classDeclaration (walk : Walker) (t : Tree) (site : Site) : Gen Unit := do
  let buffer := site.buffer
  let identifier ← field t "name"
  let name ← part identifier "name"
  let shown := name.display
  if !(← Check.isUnique site.frame t identifier) then return
  openMethods
  let id ← newClass t name
  let protocols ← field t "protocols"
  let conformed ← itemsIfTrue protocols
  addProtocols id conformed
  let names ← protocolNames conformed
  let comment ← startClass t shown names buffer
  writeProtocols buffer true names
  let hasSuper := (((← get).symbols.class? id).bind (·.superclass)).isSome
  let ref (get : String) : Value :=
    if hasSuper then .str s!"{get}(\"{shown}\").super_class" else .null
  let frame ← newFrame
    { kind := .classBody, parent := some site.frame, classId := some id
      superRef := ref "objj_getClass", superMetaRef := ref "objj_getMetaClass" }
  let ivars ← field t "ivars"
  let hasAccessors ← if (← field t "category").isNull then do
      template buffer "objj_registerClassPair($the_class);"
      writeIvars id ivars buffer
    else pure false
  register (·.registerClass id)
  classMembers walk t id ivars protocols comment frame site hasAccessors

/-! ### Protocols -/

def writeIncorporated (buffer : Nat) (isFirst : Bool) (name : Value) : Gen Unit := do
  if !isFirst then text buffer "\n"
  template buffer
    (protocolLookup (if isFirst then "\nvar " else "") "$the_incorporated_protocol" name.display ++
      "protocol_addProtocol($the_protocol, $the_incorporated_protocol);\n")

/-- Writes the code for the protocols that a protocol incorporates, the first one or those after it.
The result is their names and numbers; unknown ones are errors. -/
def incorporate (buffer : Nat) (isFirst : Bool) :
    List Value → Gen (List (Value × ProtocolId))
  | [] => return []
  | protocol :: rest => do
    let name ← part protocol "name"
    match (← get).symbols.protocols.get? (← Gen.key name) with
    | some id =>
      writeIncorporated buffer isFirst name
      return (name, id) :: (← incorporate buffer false rest)
    | none =>
      error protocol (← Check.unknownProtocol name)
      incorporate buffer isFirst rest

def describe (m : MethodBuffer) (isInstance : Bool) (buffer : Nat) : Gen Unit := do
  template buffer "\nprotocol_addMethodDescriptions($the_protocol,\n["
  splice buffer m.buffer
  let flag := if isInstance then "true" else "false"
  template buffer s!"\n],\ntrue, {flag});"

def addDescriptions (m : MethodBuffer) (isInstance : Bool) (startsLine : Bool) (buffer : Nat) :
    Gen Unit := do
  if m.isEmpty then return
  if startsLine then text buffer "\n"
  describe m isInstance buffer

def endProtocol (comment : String) (buffer : Nat) : Gen Unit := do
  let methods ← methodBuffers
  addDescriptions methods.instanceMethods true false buffer
  addDescriptions methods.classMethods false (!methods.instanceMethods.isEmpty) buffer
  template buffer ("\n// @end: " ++ comment)
  closeMethods

def protocolComment (shown : String) (names : List String) : String :=
  let list := ", ".intercalate names
  s!"@protocol {shown}" ++ if names.isEmpty then "" else s!" <{list}>"

/-- The code of a protocol up to the protocols that it incorporates, which are the result together
with the comment of the protocol. -/
def allocateProtocol (t : Tree) (shown : String) (protocols : List Value) (scratch buffer : Nat) :
    Gen (List (Value × ProtocolId) × String) := do
  let incorporated ← incorporate scratch true protocols
  let names ← incorporated.mapM fun (name, _) => textOf name
  let comment := protocolComment shown names
  continuedAt buffer
    s!"// {comment}\nvar $the_protocol = objj_allocateProtocol(\"{shown}\");\n" t.location
  splice buffer scratch
  return (incorporated, comment)

def startProtocol (t : Tree) (shown : String) (buffer : Nat) :
    Gen (List (Value × ProtocolId) × String) := do
  let scratch ← newBuffer
  allocateProtocol t shown (← itemsIfTrue (← field t "protocols")) scratch buffer

def newProtocol (t : Tree) (name : Value) (incorporated : List ProtocolId) : Gen ProtocolId := do
  let id ← modifyGet fun s =>
    let (id, symbols) := s.symbols.new (.protocolDef { name, node := .tree t, incorporated })
    (id, { s with symbols })
  register (·.registerProtocol id)
  return id

/-- A protocol. Optional methods are recorded and have no code. -/
def protocolDeclaration (walk : Walker) (t : Tree) (site : Site) : Gen Unit := do
  let identifier ← field t "name"
  let name ← part identifier "name"
  if !(← Check.isUnique site.frame t identifier) then return
  openMethods
  let (incorporated, comment) ← startProtocol t name.display site.buffer
  template site.buffer "\nobjj_registerProtocol($the_protocol);\n"
  let id ← newProtocol t name (incorporated.map (·.2))
  let frame ← newFrame { kind := .protocolBody, parent := some site.frame, protocolId := some id }
  inTurn walk (← fieldItems t "required") { site with frame }
  modifyFrames (·.modify frame fun f => { f with optionalMethods := true })
  inTurn walk (← fieldItems t "optional") { site with frame }
  endProtocol comment site.buffer

/-! ### Methods -/

def typeName (type : Value) (ifAbsent : String) : Gen Value := do
  if type.isNull then return .str ifAbsent
  let name ← part type "name"
  Check.typeProtocols (← part type "protocols")
  return name

def methodTypes (t : Tree) : Gen (List Value) := do
  let returnType ← field t "return_type"
  let action ← field t "action"
  let result ← typeName returnType (if action.isNull then "id" else "void")
  let rest ← (← fieldItems t "params").mapM fun param => do typeName (← part param "type") "id"
  return result :: rest

def methodParams (frame : FrameId) (buffer : Nat) : List Value → Gen Unit
  | [] => pure ()
  | param :: rest => do
    let identifier ← part param "id"
    text buffer ", "
    let name ← part identifier "name"
    writeAt buffer name identifier.site
    if name.isText "self" then error identifier "'self' used as a method parameter"
    else
      Check.shadowing frame identifier name "method parameter"
      declare frame (← Gen.key name) { kind := .methodParameter, node := identifier }
    methodParams frame buffer rest

def currentClassName (frame : FrameId) : Gen String := do
  let s ← get
  let c := (s.frames.currentClass frame).bind s.symbols.class?
  return (c.map (·.name.display)).getD "None"

def methodStart (t : Tree) (marker selector : Value) (types : List Value) : Gen Nat := do
  let resultType := types.headD .null
  let shown := selector.display
  let buffer ← startMethod (.ofMarker marker)
  templateAt buffer
    (s!"\n// {marker.display} ({resultType.display}){shown}\n" ++
      s!"new objj_method(sel_getUid(\"{shown}\"),") t.location
  return buffer

def methodName (className : String) (selector : Value) (buffer : Nat) : Gen Unit := do
  if (← get).settings.methodNames then
    text buffer (" " ++ functionName className (← textOf selector))

def methodHead (selector : Value) (params : List Value) (frame : FrameId) (buffer : Nat)
    (site : Site) : Gen Unit := do
  template buffer "\nfunction"
  methodName (← currentClassName site.frame) selector buffer
  text buffer "(self, _cmd"
  declare frame (.text "self") { kind := .self, owner := some frame }
  declare frame (.text "_cmd") { kind := .cmd, owner := some frame }
  methodParams frame buffer params
  text buffer ")"

def signature (types : List Value) (buffer : Nat) : Gen Unit := do
  if (← get).settings.typeSignatures then
    let list := quotedList types
    continuedAt buffer s!",\n// argument types\n[{list}]" none

/-- The code of a method. A method of a protocol may have no body. -/
def methodCode (walk : Walker) (t : Tree) (marker selector : Value) (types params : List Value)
    (frame : FrameId) (site : Site) : Gen Unit := do
  let buffer ← methodStart t marker selector types
  let body ← field t "body"
  if body.isNull then text buffer " null"
  else
    methodHead selector params frame buffer site
    walk (.body false) body { site with frame, buffer }
  signature types buffer
  text buffer ")"

def writeMethod (walk : Walker) (t : Tree) (marker selector : Value) (types params : List Value)
    (frame : FrameId) (site : Site) : Gen Unit := do
  indent
  methodCode walk t marker selector types params frame site
  dedent

/-- Records a method in the class or protocol around it, unless that has one of the same selector
and kind. -/
def recordMethod (t : Tree) (kind : MethodKind) (selector : Value) (types : List Value)
    (owner : MethodOwner) : Gen Unit := do
  let symbols := (← get).symbols
  let shown := selector.display
  let key ← Gen.key selector
  let addTo (overridden : Search Method) (add : Method → Symbols → Symbols) : Gen Unit := do
    Check.overriding t shown types (← ofOption overridden)
    let method ← makeMethod selector types (.tree t)
    modifySymbols (add method)
  match owner.classId, owner.protocolId with
  | some id, _ =>
    match (symbols.definition? id).bind (·.ownMethod key kind) with
    | some earlier =>
      error (.tree t) s!"duplicate definition of method '{shown}'"
      note earlier.node "original definition is here:"
    | none => addTo (symbols.methodWithProtocols id key kind) fun m s => s.addMethod id m kind
  | none, some id =>
    match (symbols.definition? id).bind (·.ownMethod key kind) with
    | some earlier =>
      if !(← get).diagnostics.ignoreWarnings then
        warning (.tree t) s!"duplicate declaration of method '{shown}' ignored"
        note earlier.node "first declaration is here:"
    | none => addTo (symbols.protocolMethod id key kind) fun m s =>
      s.modifyProtocol id (·.addMethod m kind (!owner.optionalMethods))
  | none, none => pure ()

def checkSetters (t : Tree) (selector : Value) : Option ClassId → Gen Unit
  | some id => Check.setterConflicts id t selector
  | none => pure ()

def methodOf (walk : Walker) (t : Tree) (owner : MethodOwner) (site : Site) : Gen Unit := do
  let marker ← field t "method_type"
  let types ← methodTypes t
  let params ← fieldItems t "params"
  let selector ← Message.selector (← field t "selectors") params.length site.earlier
  checkSetters t selector owner.classId
  let frame ← newFrame
    { kind := .method, parent := some site.frame, methodMarker := marker, selector }
  if !owner.optionalMethods then writeMethod walk t marker selector types params frame site
  recordMethod t (.ofMarker marker) selector types owner
  settle frame

def method (walk : Walker) (t : Tree) (site : Site) : Gen Unit := do
  let owner ← ofOption ((← get).frames.methodOwner? site.frame)
  if owner.classId.isNone && owner.protocolId.isNone then
    fatalAt t.location .strayMethod
  methodOf walk t owner site

end ObjectiveJ.Declaration
