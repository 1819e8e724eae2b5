import ObjectiveJ.Compiler

/-!
# Compiling files

The program is read from a file, the code goes to another one, and a source map to a third one
beside it. Nothing is written if the program has errors.
-/

namespace ObjectiveJ

variable {m : Type → Type} [Monad m]

namespace Host

def readText (host : Host m) (p : Path) : ExceptT CompileError m String := do
  match ← host.read p with
  | .ok text => return String.ofList (Text.unifyNewlines text.toList)
  | .error e => throw (.file e p.text)

def writeText (host : Host m) (p : Path) (text : String) : ExceptT CompileError m Unit := do
  match ← host.write p text with
  | .ok () => return
  | .error e => throw (.file e p.text)

def writeResult (host : Host m) (p : Path) (r : CompileResult) : ExceptT CompileError m Unit := do
  host.writeText p r.code
  if let some map := r.sourceMap then
    let some path := p.withName? (p.name ++ ".map") | throw .broken
    host.writeText path map

def entry? (host : Host m) (p : Path) : ExceptT CompileError m (Option Entry) := do
  match ← host.entry p with
  | .ok e => return some e
  | .error e => if e.isAbsence then return none else throw (.file e p.text)

end Host

namespace Compiler

/-- Compiles a file. The issues name the source file, if it is given. -/
def compileFile (host : Host m) (c : Compiler) (symbols : Symbols) (input : Path)
    (sourcePath : Option String) (outputName : String) : ExceptT CompileError m CompileResult := do
  if (← host.entry? input).isNone then throw (.noTree input.text)
  let source ← match sourcePath with
    | some p => do pure (.str (← host.readText (Path.ofText p)))
    | none => pure .null
  let .ok program := Json.parse (← host.readText input) | throw .broken
  let file := sourcePath.getD input.text
  ExceptT.mk (pure (c.compileJson symbols program source (.str file) (.str outputName)).1)

def compileFileTo (host : Host m) (options : Options) (input : Path) (output : Option Path)
    (sourcePath : Option String) : ExceptT CompileError m CompileResult := do
  let some output := output.or (input.withSuffix? ".js") | throw .broken
  let c ← ExceptT.mk (make host options)
  let result ← c.compileFile host {} input sourcePath output.name
  let result ← ExceptT.mk (pure result.accepted)
  host.writeResult output result
  return result

end Compiler

end ObjectiveJ
