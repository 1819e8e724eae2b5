import ObjectiveJ.Json.Display
import ObjectiveJ.Path
import ObjectiveJ.Text.Control

/-!
# The host

What a run needs from outside: a working directory, files, and the three standard streams. A run is
written over any host, so that the same run works on real files and on files kept in memory.
-/

namespace ObjectiveJ

inductive FileError where
  | missing
  | forbidden
  | alreadyThere
  | notADirectory
  | isADirectory
  | nameTooLong
  | unnamable
  | other (code : Nat) (reason : String)
  deriving Repr, DecidableEq

namespace FileError

def code : FileError → Nat
  | missing => 2
  | forbidden => 13
  | alreadyThere => 17
  | notADirectory => 20
  | isADirectory => 21
  | unnamable => 22
  | nameTooLong => 36
  | other code _ => code

def reason : FileError → String
  | missing => "No such file or directory"
  | forbidden => "Permission denied"
  | alreadyThere => "File exists"
  | notADirectory => "Not a directory"
  | isADirectory => "Is a directory"
  | unnamable => "Invalid argument"
  | nameTooLong => "File name too long"
  | other _ reason => reason

def isAbsence : FileError → Bool
  | missing => true
  | notADirectory => true
  | unnamable => true
  | _ => false

def message (e : FileError) (path : String) : String :=
  "[Errno " ++ (e.code : Int).repr ++ "] " ++ e.reason ++ ": " ++ Json.showText path

end FileError

inductive Entry where
  | file
  | directory
  deriving Repr, DecidableEq

def Path.isUnnamable (text : String) : Bool := text.toList.contains '\x00'

structure Host (m : Type → Type) where
  cwd : Path
  read : Path → m (Except FileError String)
  write : Path → String → m (Except FileError Unit)
  makeDirectory : Path → m (Except FileError Unit)
  entry : Path → m (Except FileError Entry)
  isFile : String → m Bool
  readInput : m String
  print : String → m Unit
  printError : String → m Unit

namespace Host

variable {m : Type → Type}

def say (host : Host m) (s : String) : m Unit := host.print (Text.printed s)

def sayError (host : Host m) (s : String) : m Unit := host.printError (Text.printed s)

end Host

end ObjectiveJ
