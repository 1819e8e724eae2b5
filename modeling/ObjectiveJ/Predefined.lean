import ObjectiveJ.Json.Basic
import ObjectiveJ.Table

/-!
# Predefined names

The names a program may use without declaring them: reserved words, the globals of the language,
of its environment and of the runtime library. A predefined global may be writable, and a local
declaration of the same name may be common enough to pass without a warning.
-/

namespace ObjectiveJ

/-- What is known of a predefined global: whether it may be written, and whether a local declaration
may hide it. Any value will do; what counts is whether it is true. -/
structure PredefinedGlobal where
  writable : Json := .bool false
  ignoreShadow : Json := .bool false

def PredefinedGlobal.ofJson? : Json → Option PredefinedGlobal
  | .arr [] => some {}
  | .arr [writable] => some { writable }
  | .arr [writable, ignoreShadow] => some { writable, ignoreShadow }
  | .arr _ => none
  | j => some { writable := .bool j.truthy }

inductive Environment where
  | browser
  | node
  deriving DecidableEq, Inhabited

def Environment.name : Environment → String
  | .browser => "browser"
  | .node => "node"

def Environment.all : List Environment := [.browser, .node]

def Environment.ofName? (name : String) : Option Environment :=
  Environment.all.find? (·.name = name)

namespace Predefined

def reservedWords : List String := [
  "arguments", "break", "case", "catch", "class", "const", "continue", "debugger", "default",
  "delete", "do", "else", "enum", "export", "extends", "false", "finally", "for", "function", "if",
  "implements", "import", "in", "instanceof", "interface", "let", "new", "null", "package",
  "private", "protected", "public", "return", "static", "super", "switch", "this", "throw", "true",
  "try", "typeof", "var", "void", "while", "with", "yield"]

def implicitParameters : List String := ["self", "_cmd"]

def types : List String := [
  "BOOL", "byte", "char", "double", "float", "id", "int", "instancetype", "JSObject", "long", "SEL",
  "short", "signed", "unsigned", "CPInteger", "CPTimeInterval", "CPUInteger"]

def nonstandard : List String := ["escape", "unescape"]

def ecma : List String := [
  "Array", "Boolean", "Date", "decodeURI", "decodeURIComponent", "encodeURI", "encodeURIComponent",
  "Error", "EvalError", "Function", "hasOwnProperty", "Infinity", "isFinite", "isNaN", "JSON",
  "Math", "NaN", "Number", "Object", "parseFloat", "parseInt", "RangeError", "ReferenceError",
  "RegExp", "String", "SyntaxError", "TypeError", "URIError", "undefined", "eval"]

def newEcma : List String := [
  "ArrayBuffer", "DataView", "Float32Array", "Float64Array", "Int8Array", "Int16Array",
  "Int32Array", "Map", "Promise", "Proxy", "Reflect", "Set", "Symbol", "Uint8Array",
  "Uint8ClampedArray", "Uint16Array", "Uint32Array", "WeakMap", "WeakSet"]

/-- The runtime library and the names that generated code relies on. -/
def runtimeLibrary : List String := [
  "class_addIvars", "class_addMethods", "class_addProtocol", "class_getInstanceMethod",
  "class_getName", "objj_allocateClassPair", "objj_allocateProtocol", "objj_allocateTypeDef",
  "objj_getClass", "objj_getMetaClass", "objj_getProtocol", "objj_ivar", "objj_method",
  "objj_msgSend", "objj_msgSend0", "objj_msgSend1", "objj_msgSend2", "objj_msgSend3",
  "objj_msgSendSuper", "objj_msgSendSuper0", "objj_msgSendSuper1", "objj_msgSendSuper2",
  "objj_msgSendSuper3", "objj_registerClassPair", "objj_registerProtocol", "objj_registerTypeDef",
  "protocol_addMethodDescriptions", "protocol_addProtocol", "sel_getName", "sel_getUid",
  "_objj_forward", "objj_importFile", "objj_executeFile", "nil", "Nil", "NULL", "YES", "NO"]

def browserOnly : List String := [
  "Audio", "Blob", "CustomEvent", "DOMParser", "Element", "Event", "FileReader", "FormData",
  "HTMLElement", "Image", "KeyboardEvent", "MouseEvent", "MutationObserver", "Node", "NodeList",
  "XMLHttpRequest", "XMLSerializer", "atob", "btoa", "cancelAnimationFrame", "clearInterval",
  "clearTimeout", "document", "getComputedStyle", "history", "localStorage", "location",
  "navigator", "performance", "requestAnimationFrame", "screen", "sessionStorage", "setInterval",
  "setTimeout", "window"]

/-- Names of the browser that programs often reuse for their own variables. -/
def browserShadowable : List String := [
  "name", "status", "top", "parent", "opener", "frames", "length", "onload", "onerror", "onresize",
  "onbeforeunload"]

def development : List String := ["alert", "confirm", "console", "prompt"]

def nodeOnly : List String := [
  "Buffer", "__dirname", "__filename", "clearImmediate", "clearInterval", "clearTimeout", "console",
  "global", "process", "require", "setImmediate", "setInterval", "setTimeout"]

def nodeWritable : List String := ["exports", "module"]

def each (names : List String) (entry : PredefinedGlobal) : List (String × PredefinedGlobal) :=
  names.map fun name => (name, entry)

def globals (environment : Environment) (extra : List (String × PredefinedGlobal)) :
    Table String PredefinedGlobal :=
  let own := match environment with
    | .browser =>
      each browserOnly {} ++ each browserShadowable ⟨.bool true, .bool true⟩ ++ each development {}
    | .node => each nodeOnly {} ++ each nodeWritable ⟨.bool true, .bool false⟩
  .ofList (each reservedWords {} ++ each nonstandard {} ++ each ecma {} ++ each newEcma {} ++
    each runtimeLibrary {} ++ own ++ extra)

end Predefined

end ObjectiveJ
