import ObjectiveJ.Format.Load
import ObjectiveJ.Generate.Walk
import ObjectiveJ.Options
import ObjectiveJ.SourceMap.Fragments
import ObjectiveJ.Tree.Number
import ObjectiveJ.Tree.Reader

/-!
# The compiler

A unit is a program with the names of its files. Compiling it walks through the program, lays out
the code, and collects the issues. Units compiled one after the other share their classes and
protocols; what a unit declares stays declared even if the unit fails.

A unit that is found wrong still has a result, with errors among its issues. A `CompileError` means
that there is no result: the options or the format are refused, the tree is malformed, or a part of
it is missing.
-/

namespace ObjectiveJ

inductive CompileError where
  | options (e : OptionError)
  | format (e : FormatError)
  | tree (e : TreeError)
  | uncompilable (message : String)
  | arity (e : ArityError)
  | rejected (report : String)
  | noTree (path : String)
  | file (e : FileError) (path : String)
  /-- The program or its format is broken in a way that is no error of the program. -/
  | broken

structure CompileResult where
  code : String
  sourceMap : Option String
  diagnostics : Diagnostics

def CompileResult.success (r : CompileResult) : Bool := !r.diagnostics.hasErrors

def CompileResult.report (r : CompileResult) : Except CompileError String :=
  if r.diagnostics.canReport then .ok r.diagnostics.report else .error .broken

def CompileResult.accepted (r : CompileResult) : Except CompileError CompileResult := do
  if r.success then return r
  throw (.rejected (← r.report))

/-- A program, its source text and the names of the files that it comes from and goes to. The text
and the names are needed as texts only where they are used. -/
structure CompileUnit where
  program : Value
  source : Json := .null
  file : Json := .str "<input>"
  outputName : Json := .null

def CompileUnit.source? (u : CompileUnit) : Option (Option String) :=
  match u.source with
  | .null => some none
  | .str s => some (some s)
  | _ => none

structure Compiler where
  options : Options
  format : Format
  predefined : Table String PredefinedGlobal

namespace Compiler

def make {m : Type → Type} [Monad m] (host : Host m) (options : Options) :
    m (Except CompileError Compiler) := do
  match ← Format.load host options.format with
  | .error e => return .error (.format e)
  | .ok format => return match options.globals? with
    | some predefined => .ok { options, format, predefined }
    | none => .error .broken

/-- The indenter: what the format says counts before the options. -/
def indenter? (c : Compiler) : Option Indenter :=
  let pick (key : String) (own : Json) :=
    let value := c.format.global key
    if value.isNull then own else value
  Indenter.make? (pick "indent-string" c.options.indentString)
    (pick "indent-width" c.options.indentWidth)

def start (c : Compiler) (symbols : Symbols) (source : Option String) : GenState :=
  { settings :=
      { objjScope := c.options.objjScope
        methodNames := c.options.methodNames
        typeSignatures := c.options.typeSignatures
        inlineMsgSend := c.options.inlineMsgSend
        source := source.map String.toList
        predefined := c.predefined }
    symbols
    diagnostics :=
      { Diagnostics.ofSource source with
        maxErrors := c.options.maxErrors
        warnings := ⟨c.options.warnings.entries.map fun (name, on) => (.text name, .bool on)⟩
        ignoreWarnings := c.options.ignoreWarnings } }

/-- The diagnostics at the end of a walk. A fatal error is one more issue. -/
def conclude (d : Diagnostics) : Except Failure Unit → Except CompileError Diagnostics
  | .ok () => .ok d
  | .error (.fatal f) => match d.ofFatal? f with
    | some issue => .ok (d.addFatal issue)
    | none => .error .broken
  | .error (.uncompilable message) => .error (.uncompilable message)
  | .error (.arity e) => .error (.arity e)
  | .error .incomplete => .error .broken

def terminated (s : String) : String := if Text.endsWith ['\n'] s.toList then s else s ++ "\n"

/-- The name of the generated file: the one that is given, else that of the source file with another
suffix. -/
def outputName? (u : CompileUnit) : Option Json :=
  if u.outputName.isNull then do
    let file ← u.file.str?
    return .str (← (Path.ofText file).withSuffix? ".js").name
  else some u.outputName

def trailer (outputName : String) : String :=
  "//# sourceMappingURL=" ++ Text.percentEncode ((Path.ofText outputName).name ++ ".map") ++ "\n"

def output? (c : Compiler) (u : CompileUnit) (fragments : List Fragment) :
    Option (String × Option String) := do
  let code := terminated (← Fragment.text? fragments)
  let name ← outputName? u
  if !c.options.sourceMap then return (code, none)
  let map := SourceMap.toJson (← SourceMap.ofFragments? {} fragments) name c.options.sourceRoot
  return (code ++ trailer (← name.str?), some map.write)

def finish (c : Compiler) (u : CompileUnit) (layout : Layout) (diagnostics : Diagnostics) :
    Except CompileError CompileResult :=
  match c.output? u (layout.fragments 0).toList with
  | some (code, sourceMap) => .ok { code, sourceMap, diagnostics }
  | none => .error .broken

def layout (c : Compiler) (indenter : Indenter) : Layout :=
  { format := c.format, indenter, keepsPlaces := c.options.sourceMap }

/-- Walks through a program. The walk ends where an instruction cannot be carried out, which is
known only once the instructions are: then it is gone through once more up to that one. -/
def walkThrough (program : Value) (layout : Layout) (start : GenState) :
    Except Failure Unit × GenState × Option Layout :=
  let (outcome, s) := (generate program).run.run start
  match layout.run s.trace.toList with
  | .ok layout => (outcome, s, some layout)
  | .error number =>
    let (outcome, s) := (generate program).run.run
      { start with settings := { start.settings with stop := some number } }
    (outcome, s, none)

def compile (c : Compiler) (symbols : Symbols) (u : CompileUnit) :
    Except CompileError CompileResult × Symbols :=
  match c.indenter?, u.source? with
  | some indenter, some source =>
    let (program, nodes) := u.program.numbered.run symbols.nodes
    let (outcome, s, layout) :=
      walkThrough program (c.layout indenter) (c.start { symbols with nodes } source)
    let result := match layout with
      | some layout => conclude s.diagnostics outcome >>= c.finish u layout
      | none => .error .broken
    (result, s.symbols)
  | _, _ => (.error .broken, symbols)

def compileJson (c : Compiler) (symbols : Symbols) (program : Json)
    (source file outputName : Json) : Except CompileError CompileResult × Symbols :=
  match Tree.program file program with
  | .error e => (.error (.tree e), symbols)
  | .ok tree => c.compile symbols { program := .tree tree, source, file, outputName }

end Compiler

end ObjectiveJ
