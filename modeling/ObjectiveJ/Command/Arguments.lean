import ObjectiveJ.Host
import ObjectiveJ.Predefined

/-!
# Command line arguments

Options stand anywhere between the inputs, until an argument of two dashes. A long option may have
its value after an equals sign; short options may be run together, and the value of a short option
may follow it at once. An option that is given twice counts the last time, except for those that
collect their values. Values are checked in the order in which the options are first given.
-/

namespace ObjectiveJ.Command

inductive Flag where
  | sourceMap
  | listWarnings
  | ignoreWarnings
  | noMethodNames
  | noTypeSignatures
  | inlineMsgSend
  | noObjjScope
  | dependencies
  | verbose
  | version
  | help
  deriving Repr, DecidableEq

inductive Setting where
  | output
  | source
  | format
  | indentString
  | indentWidth
  | maxErrors
  | warning
  | environment
  deriving Repr, DecidableEq

inductive Switch where
  | flag (f : Flag)
  | setting (s : Setting)
  deriving Repr, DecidableEq

def longOptions : List (String × Switch) := [
  ("--output", .setting .output),
  ("--source", .setting .source),
  ("--source-map", .flag .sourceMap),
  ("--format", .setting .format),
  ("--indent-string", .setting .indentString),
  ("--indent-width", .setting .indentWidth),
  ("--max-errors", .setting .maxErrors),
  ("--list-optional-warnings", .flag .listWarnings),
  ("--ignore-warnings", .flag .ignoreWarnings),
  ("--no-method-names", .flag .noMethodNames),
  ("--no-type-signatures", .flag .noTypeSignatures),
  ("--inline-msg-send", .flag .inlineMsgSend),
  ("--no-objj-scope", .flag .noObjjScope),
  ("--environment", .setting .environment),
  ("--dependencies", .flag .dependencies),
  ("--verbose", .flag .verbose),
  ("--version", .flag .version),
  ("--help", .flag .help)]

def shortOptions : List (Char × Switch) := [
  ('o', .setting .output),
  ('f', .setting .format),
  ('W', .setting .warning),
  ('v', .flag .verbose)]

inductive Item where
  | flag (f : Flag)
  | setting (s : Setting) (value : String)
  | input (name : String)
  deriving Repr, DecidableEq

inductive UsageError where
  | unknownOption (name : String)
  | missingValue (name : String)
  | unexpectedValue (name : String)
  | invalidValue (s : Setting) (value : String)
  | invalidSource (path : String)
  | unnamable (path : String)
  deriving Repr, DecidableEq

namespace UsageError

def message : UsageError → String
  | unknownOption name => "No such option: " ++ name
  | missingValue name => "Option '" ++ name ++ "' requires an argument."
  | unexpectedValue name => "Option '" ++ name ++ "' does not take a value."
  | invalidValue _ value => "Invalid value: " ++ Json.showText value ++ "."
  | invalidSource path => "Invalid value for '--source': File " ++ Json.showText path ++
      " does not exist."
  | unnamable path => "Invalid path: " ++ Json.showText path

/-- Whether the usage is shown with the message; it is not where a value is missing or one too
many. -/
def showsUsage : UsageError → Bool
  | missingValue _ => false
  | unexpectedValue _ => false
  | _ => true

end UsageError

/-- What short options that are run together say; the last one may still need a value. -/
def cluster : List Char → Except UsageError (List Item × Option (Char × Setting))
  | [] => .ok ([], none)
  | c :: rest => match shortOptions.lookup c with
    | none => .error (.unknownOption (String.ofList ['-', c]))
    | some (.setting s) =>
      if rest.isEmpty then .ok ([], some (c, s)) else .ok ([.setting s (String.ofList rest)], none)
    | some (.flag f) => do
      let (items, pending) ← cluster rest
      return (.flag f :: items, pending)

def nameAndValue (arg : List Char) : String × Option String :=
  match arg.dropWhile (· ≠ '=') with
  | [] => (String.ofList arg, none)
  | _ :: value => (String.ofList (arg.takeWhile (· ≠ '=')), some (String.ofList value))

def isOption (arg : String) : Bool := Text.startsWith ['-'] arg.toList && arg ≠ "-"

mutual

def items : List String → Except UsageError (List Item)
  | [] => .ok []
  | arg :: rest =>
    if arg = "--" then .ok (rest.map .input)
    else if !isOption arg then do return .input arg :: (← items rest)
    else
      let (name, value) := nameAndValue arg.toList
      match longOptions.lookup name, value with
      | some (.flag f), none => do return .flag f :: (← items rest)
      | some (.flag _), some _ => .error (.unexpectedValue name)
      | some (.setting s), some value => do return .setting s value :: (← items rest)
      | some (.setting s), none => setting name s rest
      | none, _ =>
        if Text.startsWith ['-', '-'] arg.toList then .error (.unknownOption name)
        else do
          let (before, pending) ← cluster (arg.toList.drop 1)
          match pending with
          | none => return before ++ (← items rest)
          | some (c, s) => return before ++ (← setting (String.ofList ['-', c]) s rest)

def setting (name : String) (s : Setting) : List String → Except UsageError (List Item)
  | [] => .error (.missingValue name)
  | value :: rest => do return .setting s value :: (← items rest)

end

structure Arguments where
  inputs : List String := []
  output : Option String := none
  sources : List String := []
  format : String := "cappuccino"
  indentString : Option String := none
  indentWidth : Int := 4
  maxErrors : Int := 20
  warnings : List String := []
  environment : Environment := .browser
  flags : List Flag := []

namespace Arguments

def has (a : Arguments) (f : Flag) : Bool := a.flags.contains f

def number (s : Setting) (value : String) : Except UsageError Int :=
  match Json.intOfText? value with
  | some n => .ok n
  | none => .error (.invalidValue s value)

def path (value : String) : Except UsageError String :=
  if Path.isUnnamable value then .error (.unnamable value) else .ok value

/-- Takes the values of an option; one that does not collect its values takes the last. -/
def set (a : Arguments) (s : Setting) (values : List String) : Except UsageError Arguments := do
  let value := values.getLastD ""
  match s with
  | .output => return { a with output := some (← path value) }
  | .source => return { a with sources := values }
  | .format => return { a with format := value }
  | .indentString => return { a with indentString := some value }
  | .indentWidth =>
    let n ← number .indentWidth value
    if n < 0 then throw (.invalidValue .indentWidth value)
    return { a with indentWidth := n }
  | .maxErrors => return { a with maxErrors := ← number .maxErrors value }
  | .warning => return { a with warnings := values }
  | .environment => match Environment.ofName? value with
    | some environment => return { a with environment }
    | none => throw (.invalidValue .environment value)

def valuesOf (s : Setting) (items : List Item) : List String :=
  items.filterMap fun
    | .setting s' value => if s = s' then some value else none
    | _ => none

/-- The options with values in order of their first use, each with its values. -/
def settingsOf : List Item → List (Setting × List String)
  | [] => []
  | .setting s value :: rest =>
    (s, value :: valuesOf s rest) :: (settingsOf rest).filter fun (s', _) => s ≠ s'
  | _ :: rest => settingsOf rest

def ofItems (items : List Item) : Arguments :=
  { inputs := items.filterMap fun
      | .input name => some name
      | _ => none
    flags := items.filterMap fun
      | .flag f => some f
      | _ => none }

def inquiry? (items : List Item) : Option Flag :=
  items.findSome? fun
    | .flag .version => some .version
    | .flag .help => some .help
    | _ => none

end Arguments

end ObjectiveJ.Command
