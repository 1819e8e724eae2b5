import ObjectiveJ.Host
import ObjectiveJ.Table

/-!
# Files in memory

A host whose files are kept in a table, with the streams beside them. A place is the list of names
that leads to it from the top. The directories are the ones that have been made, the ones that lead
to them, and the ones that lead to a file.
-/

namespace ObjectiveJ

structure Memory where
  cwd : List String
  files : Table String String := {}
  directories : List (List String) := []
  input : String := ""
  output : String := ""
  errors : String := ""

namespace Memory

def key (place : List String) : String := "/".intercalate place

def file? (s : Memory) (place : List String) : Option String := s.files.get? (key place)

def placeOf (key : String) : List String := (Text.split '/' key.toList).map String.ofList

def isDirectory (s : Memory) (place : List String) : Bool :=
  (s.cwd :: s.directories ++ s.files.names.map fun f => (placeOf f).dropLast).any
    place.isPrefixOf

def nameLimit : Nat := 255

def pathLimit : Nat := 4096

def step (s : Memory) (place : List String) (name : String) : Except FileError (List String) :=
  if !s.isDirectory place then .error (if (s.file? place).isSome then .notADirectory else .missing)
  else if nameLimit < name.utf8ByteSize then .error .nameTooLong
  else .ok (if name = "." then place else Path.follow place name)

def locate (s : Memory) (start names : List String) : Except FileError (List String) :=
  names.foldlM s.step start

def checkText (text : String) : Except FileError Unit := do
  if Path.isUnnamable text then throw .unnamable
  if pathLimit ≤ text.utf8ByteSize then throw .nameTooLong

def find (s : Memory) (p : Path) : Except FileError (List String) := do
  checkText p.text
  s.locate (if p.root = "" then s.cwd else []) p.parts

def entry (s : Memory) (p : Path) : Except FileError Entry := do
  let place ← s.find p
  if s.isDirectory place then return .directory
  if (s.file? place).isSome then return .file
  throw .missing

def read (s : Memory) (p : Path) : Except FileError String := do
  let place ← s.find p
  if s.isDirectory place then throw .isADirectory
  match s.file? place with
  | some text => return text
  | none => throw .missing

def write (s : Memory) (p : Path) (text : String) : Except FileError Memory := do
  let place ← s.find p
  if s.isDirectory place then throw .isADirectory
  return { s with files := s.files.set (key place) text }

def makeDirectory (s : Memory) (p : Path) : Except FileError Memory := do
  checkText p.text
  let (s, place) ← p.parts.foldlM
    (fun (s, place) name => do
      let next ← s.step place name
      if (s.file? next).isSome then return (s, next)
      return ({ s with directories := next :: s.directories }, next))
    (s, if p.root = "" then s.cwd else [])
  if (s.file? place).isSome then throw .alreadyThere
  return s

def isFile (s : Memory) (text : String) : Bool :=
  let names := ((Text.split '/' text.toList).map String.ofList).filter (· ≠ "")
  let start := if Text.startsWith ['/'] text.toList then [] else s.cwd
  match s.locate start names with
  | .ok place => !Text.endsWith ['/'] text.toList && (s.file? place).isSome
  | .error _ => false

def attempt (f : Memory → Except FileError Memory) : StateM Memory (Except FileError Unit) :=
  modifyGet fun s => match f s with
    | .ok s => (.ok (), s)
    | .error e => (.error e, s)

def host (cwd : List String) : Host (StateM Memory) where
  cwd := { root := "/", parts := cwd }
  read p := return (← get).read p
  write p text := attempt fun s => s.write p text
  makeDirectory p := attempt fun s => s.makeDirectory p
  entry p := return (← get).entry p
  isFile text := return (← get).isFile text
  readInput := modifyGet fun s => (s.input, { s with input := "" })
  print text := modify fun s => { s with output := s.output ++ text }
  printError text := modify fun s => { s with errors := s.errors ++ text }

end Memory

end ObjectiveJ
