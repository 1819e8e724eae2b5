import ObjectiveJ.Generate.Check
import ObjectiveJ.Generate.Enclose

/-!
# Messages and literals of Objective-J

A message `[receiver sel:arg]` is a call of the method that the class of the receiver has for the
selector. A receiver that may be nil is tested first. One that is no plain variable is evaluated
once into a *receiver temp*, which the function, method or file around declares at its end. Temps
are numbered by how deep they are nested.
-/

namespace ObjectiveJ.Message

open Gen

/-- A selector with a text at its end. A list gets the characters of the text, and keeps those of
each earlier time. -/
def extended? (selector : Value) (earlier : Nat) (s : String) : Option Value :=
  match selector with
  | .str t => some (.str (t ++ s))
  | .list items =>
    let more := s.toList.map fun c => Value.str (String.singleton c)
    some (.list (items ++ (List.replicate (earlier + 1) more).flatten))
  | _ => none

def partName (v : Value) : Gen Value := if v.isNull then pure (.str "") else part v "name"

def moreParts : Nat → List Value → Gen String
  | 0, _ => return ""
  | n + 1, [] => return ":" ++ (← moreParts n [])
  | n + 1, v :: rest => do
    let name ← textOf (← partName v)
    return name ++ ":" ++ (← moreParts n rest)

def firstPart (parts : Value) : Gen Value := do
  if parts.truthy then ofOption (← items parts).head? else return .null

def selector (parts : Value) (colons earlier : Nat) : Gen Value := do
  let first ← partName (← firstPart parts)
  match colons with
  | 0 => return first
  | 1 => ofOption (extended? first earlier ":")
  | n + 2 => do
    let more ← moreParts (n + 1) ((← items parts).drop 1)
    ofOption (extended? first earlier (":" ++ more))

def countSuffix (n : Nat) : String := if n ≤ 3 then (n : Int).repr else ""

def dispatch (isInline : Bool) (receiver selector : String) (args : Nat) : String :=
  if isInline then receiver ++ ".isa.method_msgSend[\"" ++ selector ++ "\"] || _objj_forward)("
  else receiver ++ ".isa.objj_msgSend" ++ countSuffix args ++ "("

def takeTemp (frame : FrameId) : Gen String :=
  modifyGet fun s =>
    let (level, frames) := s.frames.takeTemp (s.frames.varFrame frame)
    (tempName level, { s with frames })

def dropTemp (frame : FrameId) : Gen Unit :=
  modifyFrames fun fs => fs.dropTemp (fs.varFrame frame)

/-! ### Array and dictionary literals -/

def writeArray (walk : Walker) (site : Site) (list : Value) : Gen Unit := do
  text site.buffer ", ["
  between (text site.buffer ", ") (walk .plain · site) (← items list)
  text site.buffer "]"

def writeCount (withCount : Bool) (list : Value) (buffer : Nat) : Gen Unit := do
  if withCount then text buffer (", " ++ ((← items list).length : Int).repr)

/-- What a new object is sent: its initializer with one array for each list, or only `init`. -/
def initialized (walk : Walker) (initializer : String) (first : Value) (more : List Value)
    (withCount : Bool) (site : Site) (isInline : Bool) (temp : String) : Gen Unit := do
  if first.truthy then
    text site.buffer (dispatch isInline temp initializer 2)
    text site.buffer s!"{temp}, \"{initializer}\""
    (first :: more).forM (writeArray walk site)
    writeCount withCount first site.buffer
    text site.buffer "))"
  else
    text site.buffer (dispatch isInline temp "init" 0)
    text site.buffer s!"{temp}, \"init\"))"

/-- What a new object writes while its temp is in use. -/
def allocated (walk : Walker) (t : Tree) (className initializer : String) (first : Value)
    (more : List Value) (withCount : Bool) (site : Site) (isInline : Bool) (temp : String) :
    Gen Unit := do
  let buffer := site.buffer
  textAt buffer s!"({temp} = " t.location
  text buffer (if isInline then s!"({className}.isa.method_msgSend[\"alloc\"] || _objj_forward)"
    else s!"{className}.isa.objj_msgSend0")
  let parens := if isInline then "(" else ""
  text buffer s!"({className}, \"alloc\"), {temp} == null ? null : {parens}"
  initialized walk initializer first more withCount site isInline temp

/-- A new object of a class: it is allocated and then sent a selector with one array for each list,
the first one and those after it. If the first list is empty it is only sent `init`. -/
def allocInit (walk : Walker) (t : Tree) (className initializer : String) (first : Value)
    (more : List Value) (withCount : Bool) (site : Site) : Gen Unit := do
  let isInline := (← get).settings.inlineMsgSend
  allocated walk t className initializer first more withCount site isInline
    (← takeTemp site.frame)
  dropTemp site.frame

def arrayLiteral (walk : Walker) (t : Tree) (site : Site) : Gen Unit := do
  allocInit walk t "CPArray" "initWithObjects:count:" (← field t "elements") [] true site

def dictionaryLiteral (walk : Walker) (t : Tree) (site : Site) : Gen Unit := do
  allocInit walk t "CPDictionary" "initWithObjects:forKeys:" (← field t "values")
    [← field t "keys"] false site

def selectorLiteral (t : Tree) (site : Site) : Gen Unit := do
  let selector := (← field t "selector").display
  textAt site.buffer s!"sel_getUid(\"{selector}\")" t.location

def protocolLiteral (t : Tree) (site : Site) : Gen Unit := do
  let protocol ← field t "protocol"
  let name ← part protocol "name"
  if ((← get).symbols.lookupProtocol (← Gen.key name)).isSome then
    textAt site.buffer s!"objj_getProtocol(\"{name.display}\")" t.location
  else error protocol (← Check.unknownProtocol name)

/-! ### Messages -/

/-- Whether a receiver that is a plain variable may be nil: a class is never nil, and `self` only
if it may have been assigned to. -/
def mayBeNil (s : GenState) (frame : FrameId) (name : Key) : Bool :=
  if name = .text "self" then
    match s.frames.lookup frame name with
    | some { kind := .self, owner := some owner, .. } =>
      ((s.frames.frame? owner).map (·.selfAssigned)).getD false
    | _ => true
  else (s.symbols.lookupClass name).isNone

def isIvar (s : GenState) (frame : FrameId) (name : Key) : Bool :=
  (s.frames.lookup frame name).isNone && (s.frames.currentMarker frame).isText "-" &&
    (s.frames.ivar s.symbols frame name).isSome

def plainName? (frame : FrameId) (receiver : Value) : Gen (Option Key) := do
  if !receiver.isNode .identifier then return none
  let key ← Gen.key (← part receiver "name")
  setContext frame fun c => { c with isReceiver := true }
  return if isIvar (← get) frame key then none else some key

def superCall (location : Option Location) (selector suffix shown : String) (isInline : Bool)
    (site : Site) : Gen Unit := do
  if isInline then
    textAt site.buffer s!"({shown}.method_dtable[\"{selector}\"] || _objj_forward)" location
    text site.buffer "(self"
  else
    textAt site.buffer ("objj_msgSendSuper" ++ suffix) location
    text site.buffer s!"(\x7b receiver: self, super_class: {shown} \x7d"

/-- The call of a method of the superclass. Of the method around it only the kind matters. -/
def writeSuper (location : Option Location) (selector suffix : String) (site : Site) :
    Gen Unit := do
  let s ← get
  match (s.frames.currentMethod site.frame).map (·.2.methodMarker) with
  | none => fatalAt location .superOutsideMethod
  | some marker => match s.frames.currentClass site.frame with
    | none => fatalAt location .superOutsideMethod
    | some classId =>
      let ref := s.frames.superRef site.frame marker
      if ref.isNull then
        let name := ((s.symbols.class? classId).map (·.name.display)).getD ""
        fatalAt location (.superInRootClass name)
      superCall location selector suffix ref.display s.settings.inlineMsgSend site

def writeArgument (walk : Walker) (site : Site) (v : Value) : Gen Unit := do
  text site.buffer ", "
  walk .plain v site

/-- The call of a method of a receiver that has been written. -/
def callText (isInline : Bool) (selector : String) (args : Nat) : String :=
  if isInline then s!".isa.method_msgSend[\"{selector}\"] || _objj_forward)"
  else ".isa.objj_msgSend" ++ countSuffix args

section Calls

variable (walk : Walker) (receiver firstSelector : Value) (selector : String) (args : List Value)
  (isInline : Bool) (scratch : Nat) (site : Site)

/-- The end of a call: the selector and the arguments of a message. -/
def endCall : Gen Unit := do
  text site.buffer s!", \"{selector}\""
  args.forM (writeArgument walk site)
  text site.buffer ")"

def sendToSuper (walk : Walker) (location : Option Location) (selector : String)
    (args : List Value) (site : Site) : Gen Unit := do
  writeSuper location selector (countSuffix args.length) site
  endCall walk selector args site

/-- The call of a method of a plain variable. -/
def callName : Gen Unit := do
  let buffer := site.buffer
  if isInline then text buffer "("
  splice buffer scratch
  text buffer (callText (← get).settings.inlineMsgSend selector args.length)
  text buffer "("
  splice buffer scratch
  endCall walk selector args site

/-- A message to a plain variable, which is written wherever the receiver is needed. -/
def sendToName (walk : Walker) (receiver : Value) (name : Key) (selector : String)
    (args : List Value) (isInline : Bool) (scratch : Nat) (site : Site) : Gen Unit := do
  let buffer := site.buffer
  let nil := mayBeNil (← get) site.frame name
  walk .plain receiver { site with buffer := scratch }
  if nil then
    text buffer "("
    splice buffer scratch
    text buffer " == null ? null : "
    callName walk selector args isInline scratch site
    text buffer ")"
  else callName walk selector args isInline scratch site

/-- The call of a method of the value of a temp. -/
def callTemp (temp : String) : Gen Unit := do
  textAt site.buffer temp firstSelector.site
  text site.buffer (callText (← get).settings.inlineMsgSend selector args.length)
  text site.buffer "("
  text site.buffer temp
  endCall walk selector args site

/-- What a message writes while the temp of its receiver is in use. -/
def stored (temp : String) : Gen Unit := do
  let buffer := site.buffer
  walk .plain receiver { site with buffer := scratch }
  text buffer s!"(({temp} = "
  splice buffer scratch
  let parens := if isInline then "(" else ""
  text buffer s!"), {temp} == null ? null : {parens}"
  callTemp walk firstSelector selector args site temp

def storedOnce : Gen Unit := do
  stored walk receiver firstSelector selector args isInline scratch site (← takeTemp site.frame)
  dropTemp site.frame

def sendToReceiver : Gen Unit := do
  let isInline := (← get).settings.inlineMsgSend
  let name ← plainName? site.frame receiver
  let scratch ← newBuffer
  match name with
  | some name => sendToName walk receiver name selector args isInline scratch site
  | none =>
    storedOnce walk receiver firstSelector selector args isInline scratch site
    text site.buffer ")"

def sendTo : Gen Unit :=
  if receiver.isNode .superReceiver then sendToSuper walk receiver.site selector args site
  else sendToReceiver walk receiver firstSelector selector args site

end Calls

def sendParts (walk : Walker) (t : Tree) (receiver parts first : Value) (site : Site) :
    Gen Unit := do
  let args ← fieldItems t "args"
  let selector := (← selector parts args.length site.earlier).display
  let varArgs ← itemsIfTrue (← field t "var_args")
  sendTo walk receiver first selector (args ++ varArgs) { site with inMessage := true }

def send (walk : Walker) (t : Tree) (site : Site) : Gen Unit := do
  let receiver ← field t "receiver"
  let parts ← field t "selectors"
  let first ← firstPart parts
  if !site.inMessage then sourceComment site.buffer t.span
  sendParts walk t receiver parts first site

end ObjectiveJ.Message
