import ObjectiveJ.Command.Run

/-!
# The command line

The command on real files and streams.
-/

namespace ObjectiveJ

def FileError.ofSystem : IO.Error → FileError
  | .noFileOrDirectory .. => .missing
  | .permissionDenied .. => .forbidden
  | .alreadyExists .. => .alreadyThere
  | .inappropriateType _ code reason =>
    if code = 21 then .isADirectory else if code = 20 then .notADirectory
    else .other code.toNat reason
  | .resourceExhausted _ code reason => if code = 36 then .nameTooLong else .other code.toNat reason
  | .invalidArgument _ code reason => if code = 36 then .nameTooLong else .other code.toNat reason
  | e => .other 0 (toString e)

def attempt {α : Type} (action : IO α) : IO (Except FileError α) := do
  try
    return .ok (← action)
  catch e =>
    return .error (.ofSystem e)

def isDirectoryAt? (path : String) : IO (Option Bool) := do
  match ← attempt (IO.FS.realPath path) with
  | .ok real => if ← real.pathExists then return some (← real.isDir) else return none
  | .error _ => return none

def systemEntry (path : String) : IO (Except FileError Entry) := do
  if Path.isUnnamable path then return .error .unnamable
  match ← isDirectoryAt? path with
  | some true => return .ok .directory
  | some false => return .ok .file
  | none => return .error .missing

def systemHost : IO (Host IO) := do
  let cwd ← IO.currentDir
  return {
    cwd := Path.ofText cwd.toString
    read := fun p => attempt (IO.FS.readFile p.text)
    write := fun p text => attempt (IO.FS.writeFile p.text text)
    makeDirectory := fun p => attempt (IO.FS.createDirAll p.text)
    entry := fun p => systemEntry p.text
    isFile := fun text => return (← isDirectoryAt? text) == some false
    readInput := do (← IO.getStdin).readToEnd
    print := fun text => do (← IO.getStdout).putStr text
    printError := fun text => do (← IO.getStderr).putStr text }

end ObjectiveJ

def main (args : List String) : IO UInt32 := do
  let exit ← ObjectiveJ.Command.run (← ObjectiveJ.systemHost) args
  return exit.code.toUInt32
