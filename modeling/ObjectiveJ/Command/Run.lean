import ObjectiveJ.Command.Arguments
import ObjectiveJ.Compiler.File

/-!
# Running the command

All inputs are compiled in order with the same symbols, so that a file knows the classes of the
files before it. A file with errors does not keep the next one from being compiled; anything else
that goes wrong ends the run.
-/

namespace ObjectiveJ.Command

inductive Exit where
  | success
  | buildError
  | invalidArguments
  | usage
  /-- A path among the arguments that no file can have; nothing is said about it. -/
  | aborted
  | internalError
  deriving Repr, DecidableEq

def Exit.code : Exit → Nat
  | success => 0
  | buildError => 1
  | invalidArguments => 2
  | usage => 2
  | aborted => 1
  | internalError => 3

inductive RunError where
  | parameter (message : String)
  | compile (e : CompileError)

def RunError.report : RunError → String × Exit
  | .parameter message => ("Error: " ++ message, .invalidArguments)
  | .compile e => match e with
    | .options e => invalid e.message?
    | .format e => invalid e.message?
    | .tree e => malformed e.message?
    | .uncompilable message => malformed (some message)
    | .rejected report => (report, .buildError)
    | .file e path => match e with
      | .missing => invalid (some (e.message path))
      | .forbidden => invalid (some (e.message path))
      | .isADirectory => invalid (some (e.message path))
      | _ => internal
    | .noTree path => invalid (some ("AST file not found: " ++ path))
    | .arity _ => internal
    | .broken => internal
where
  internal : String × Exit := ("Internal error", .internalError)
  invalid : Option String → String × Exit
    | some message => ("Error: " ++ message, .invalidArguments)
    | none => internal
  malformed : Option String → String × Exit
    | some message => ("Compilation error: " ++ message, .buildError)
    | none => internal

def standardInput : String := "-"

def versionText : String := "objjc, version 1.0.0\n"

def usageText : String := "Usage: objjc [OPTIONS] [INPUTS]...\n"

def warningsText : String :=
  String.join (Warning.all.map fun w =>
    w.name ++ (if w.onByDefault then " (on)\n" else " (off)\n"))

def indentText : Option String → String
  | none => " "
  | some "tab" => "\t"
  | some "space" => " "
  | some s => s

def check (a : Arguments) : Except String Unit := do
  if a.inputs.isEmpty then throw "no input files"
  if 1 < a.inputs.count standardInput then throw "standard input can only be read once"
  if !a.sources.isEmpty && a.sources.length != a.inputs.length then
    throw ("got " ++ (a.sources.length : Int).repr ++ " source file(s) for " ++
      (a.inputs.length : Int).repr ++ " input(s)")
  if a.has .sourceMap && a.output.isNone then throw "a source map needs an output file"

def optionsOf (a : Arguments) : Except RunError Options := do
  let switches ← match Warning.parse a.warnings with
    | .ok switches => pure switches
    | .error name => throw (.parameter (Warning.unknownMessage name))
  let maxErrors ← match Options.limit (.int a.maxErrors) with
    | .ok n => pure n
    | .error e => throw (.compile (.options e))
  return {
    sourceMap := a.has .sourceMap
    format := .str a.format
    indentString := .str (indentText a.indentString)
    indentWidth := .int a.indentWidth
    environment := a.environment
    maxErrors
    methodNames := !a.has .noMethodNames
    typeSignatures := !a.has .noTypeSignatures
    inlineMsgSend := a.has .inlineMsgSend
    objjScope := !a.has .noObjjScope
    ignoreWarnings := a.has .ignoreWarnings
    warnings := Warning.defaults.merge switches }

def outputIn (directory : Path) (input : String) : Path :=
  directory.child
    ((if input = standardInput then "stdin" else (Path.ofText input).stem) ++ ".js")

/-- Whether the output is a directory: it is one, it is written as one, or there are several
inputs. -/
def isDirectoryOutput (inputs : List String) (output : Path) (isDirectory : Bool) : Bool :=
  1 < inputs.length || isDirectory || Text.endsWith ['/'] output.text.toList ||
    Text.endsWith ['\\'] output.text.toList

def outputPaths (inputs : List String) (output : Path) (isDirectory : Bool) : List Path :=
  if isDirectoryOutput inputs output isDirectory then inputs.map (outputIn output) else [output]

structure Job where
  input : String
  source : Option String
  output : Option Path

def jobs (inputs sources : List String) (outputs : List Path) : List Job :=
  (inputs.zip (List.range inputs.length)).map fun (input, i) =>
    { input, source := sources[i]?, output := outputs[i]? }

variable {m : Type → Type} [Monad m]

def readInput (host : Host m) (name : String) : ExceptT CompileError m String :=
  if name = standardInput then host.readInput else host.readText (Path.ofText name)

def readProgram (host : Host m) (name file : String) : ExceptT CompileError m Tree := do
  let text ← readInput host name
  match Tree.program (.str file) (.str text) with
  | .ok tree => return tree
  | .error e => throw (.tree e)

def printImports (host : Host m) (named : Bool) (name : String) : ExceptT CompileError m Unit := do
  let tree ← readProgram host name name
  if named then host.say (name ++ ":\n")
  let some imports := tree.imports? | throw .broken
  for i in imports do
    host.say (i.text ++ "\n")

/-- Compiles one input; the result is what is known afterwards and whether it has no errors. -/
def compileJob (host : Host m) (c : Compiler) (verbose : Bool) (symbols : Symbols) (job : Job) :
    ExceptT CompileError m (Symbols × Bool) := do
  let source ← match job.source with
    | some p => do pure (.str (← host.readText (Path.ofText p)))
    | none => pure .null
  let file := (job.source.map fun p => (Path.ofText p).text).getD job.input
  if verbose then host.sayError ("Compiling " ++ job.input ++ "...\n")
  let tree ← readProgram host job.input file
  let outputName := match job.output with
    | some path => .str path.name
    | none => .null
  let (result, symbols) := c.compile symbols
    { program := .tree tree, source, file := .str file, outputName }
  let result ← ExceptT.mk (pure result)
  if !result.diagnostics.list.isEmpty then
    host.sayError ((← ExceptT.mk (pure result.report)) ++ "\n")
  if !result.success then return (symbols, false)
  match job.output with
  | none => host.say result.code
  | some path =>
    host.writeResult path result
    if verbose then host.sayError ("Compiled " ++ job.input ++ " -> " ++ path.text ++ "\n")
  return (symbols, true)

def compileJobs (host : Host m) (c : Compiler) (verbose : Bool) (symbols : Symbols) :
    List Job → ExceptT CompileError m Bool
  | [] => return true
  | job :: rest => do
    let (symbols, good) ← compileJob host c verbose symbols job
    let others ← compileJobs host c verbose symbols rest
    return good && others

def prepareOutputs (host : Host m) (a : Arguments) : ExceptT CompileError m (List Path) := do
  let some output := a.output.map Path.ofText | return []
  let isDirectory ← if 1 < a.inputs.length then pure false
    else do pure ((← host.entry? output) = some .directory)
  if isDirectoryOutput a.inputs output isDirectory then
    if let .error e ← host.makeDirectory output then throw (.file e output.text)
  return outputPaths a.inputs output isDirectory

/-- Does what the arguments ask for; the result is whether no input has errors. -/
def perform (host : Host m) (a : Arguments) : ExceptT RunError m Bool := do
  if let .error message := check a then throw (.parameter message)
  let options ← match optionsOf a with
    | .ok options => pure options
    | .error e => throw e
  ExceptT.adapt .compile do
    let c ← ExceptT.mk (Compiler.make host options)
    if a.has .dependencies then
      for name in a.inputs do
        printImports host (1 < a.inputs.length) name
      return true
    let outputs ← prepareOutputs host a
    compileJobs host c (a.has .verbose) {} (jobs a.inputs a.sources outputs)

def checkSources (host : Host m) : List String → m (Except UsageError Unit)
  | [] => return .ok ()
  | path :: rest => do
    if Path.isUnnamable path then return .error (.unnamable path)
    if ← host.isFile path then checkSources host rest else return .error (.invalidSource path)

def takeSettings (host : Host m) (a : Arguments) :
    List (Setting × List String) → m (Except UsageError Arguments)
  | [] => return .ok a
  | (s, values) :: rest => do
    if s = .source then
      if let .error e ← checkSources host values then return .error e
    match a.set s values with
    | .ok a => takeSettings host a rest
    | .error e => return .error e

def refuse (host : Host m) (e : UsageError) : m Exit := do
  if let .unnamable _ := e then return .aborted
  if e.showsUsage then host.printError (usageText ++ "Try 'objjc --help' for help.\n\n")
  host.sayError ("Error: " ++ e.message ++ "\n")
  return .usage

def run (host : Host m) (args : List String) : m Exit := do
  let items ← match items args with
    | .ok items => pure items
    | .error e => return ← refuse host e
  match Arguments.inquiry? items with
  | some .version => host.say versionText; return .success
  | some _ => host.say usageText; return .success
  | none =>
  let a ← match ← takeSettings host (Arguments.ofItems items) (Arguments.settingsOf items) with
    | .ok a => pure a
    | .error e => return ← refuse host e
  if a.has .listWarnings then
    host.say warningsText
    return .success
  match ← (perform host a).run with
  | .ok true => return .success
  | .ok false => return .buildError
  | .error e =>
    let (message, exit) := e.report
    host.sayError (message ++ "\n")
    return exit

end ObjectiveJ.Command
