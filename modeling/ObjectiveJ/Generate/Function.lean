import ObjectiveJ.Generate.Check
import ObjectiveJ.Generate.Enclose

/-!
# Functions

The code of function declarations and expressions. A function has a frame of its own. With a scope
for the file, a function that is declared outside of any function is assigned to a global.
-/

namespace ObjectiveJ.Function

open Gen

def declareParams (outer inner : FrameId) : List Value → Gen Unit
  | [] => pure ()
  | param :: rest => do
    let name ← part param "name"
    if name.isText "self" && ((← get).frames.currentMethod outer).isSome then
      error param "'self' used as a function parameter within a method"
    else
      Check.shadowing inner param name "function parameter"
      declare inner (← Gen.key name) { kind := .functionParameter, node := param }
    declareParams outer inner rest

def writeParam (site : Site) (param : Value) : Gen Unit := do
  writeAt site.buffer (← part param "name") param.site

def writeParams (params : List Value) (site : Site) : Gen Unit := do
  leftParens site.buffer site.type
  between (comma site.buffer site.type) (writeParam site) params
  rightParens site.buffer site.type

def name? (id : Value) : Gen (Option Value) := do
  if id.isNull then return none else return some (← part id "name")

def writeGlobal (id name : Value) (isGlobal : Bool) (site : Site) : Gen Unit := do
  if isGlobal then
    writeAt site.buffer name id.site
    operator site.buffer site.type (.str "=")

def declareName (t : Tree) (id name : Value) (isGlobal : Bool) (inner : FrameId) (site : Site) :
    Gen Unit := do
  if t.type = .functionDeclaration then
    declare site.frame (← Gen.key name) { kind := .function, node := id }
  else
    declare inner (← Gen.key name) { kind := .functionName, node := id }
  writeGlobal id name isGlobal site

/-- What a function declares and writes before its body. The result is whether a global is
assigned. -/
def head (t : Tree) (id : Value) (name : Option Value) (inner : FrameId) (site : Site) :
    Gen Bool := do
  let params ← fieldItems t "params"
  declareParams site.frame inner params
  let s ← get
  let isGlobal :=
    t.type = .functionDeclaration && s.settings.objjScope && !s.frames.isLocal site.frame
  if let some name := name then declareName t id name isGlobal inner site
  textAt site.buffer "function" t.location
  if let some name := name then text site.buffer (" " ++ (← textOf name))
  writeParams params site
  return isGlobal

/-- Whether a function is a lambda: one with at most one statement inside of an object literal. -/
def isLambda (t : Tree) (body : Value) (site : Site) : Gen Bool := do
  if t.type = .functionDeclaration then return false
  let length := (← items (← part body "body")).length
  let parent := (← get).ancestry.parentType site.type 0
  return length ≤ 1 && parent = some "ObjectExpression"

def tail (isGlobal : Bool) (name : Option Value) (inner : FrameId) (site : Site) : Gen Unit := do
  if isGlobal && name.isSome then text site.buffer ";"
  modifyFrames (·.copyIvarRefs inner)
  settle inner

def compile (walk : Walker) (t : Tree) (site : Site) : Gen Unit := do
  let id ← field t "id"
  let name ← name? id
  let inner ← newFrame
    { kind := .function, parent := some site.frame
      functionName := name.getD (.str "<anonymous>") }
  let isGlobal ← head t id name inner site
  let body ← field t "body"
  walk (.body (← isLambda t body site)) body { site with frame := inner }
  tail isGlobal name inner site

end ObjectiveJ.Function
