import ObjectiveJ.Text.Basic

/-!
# Paths

A path is what it starts with, if it is absolute, and the names on the way. Empty names and names
of a single point mean nothing and are left out; two points are kept, because they mean something
only where the path is followed.

The *suffix* of a name starts at its last point, unless this is the first or the last character.
-/

namespace ObjectiveJ

structure Path where
  root : String := ""
  parts : List String := []
  deriving DecidableEq, Inhabited

namespace Path

/-- What a text starts with: two slashes mean something else than one or three. -/
def rootOf : List Char → String
  | ['/', '/'] => "//"
  | '/' :: '/' :: c :: _ => if c = '/' then "/" else "//"
  | '/' :: _ => "/"
  | _ => ""

def ofText (text : String) : Path :=
  { root := rootOf text.toList
    parts := ((Text.split '/' text.toList).map String.ofList).filter fun s => s ≠ "" ∧ s ≠ "." }

def text (p : Path) : String :=
  if p.root = "" ∧ p.parts = [] then "." else p.root ++ "/".intercalate p.parts

def name (p : Path) : String := p.parts.getLastD ""

def splitSuffix (name : List Char) : List Char × List Char :=
  let back := name.reverse
  let suffix := (back.takeWhile (· ≠ '.')).reverse
  match back.dropWhile (· ≠ '.') with
  | _ :: stem => if stem = [] ∨ suffix = [] then (name, []) else (stem.reverse, '.' :: suffix)
  | [] => (name, [])

def stem (p : Path) : String := String.ofList (splitSuffix p.name.toList).1

def withName? (p : Path) (name : String) : Option Path :=
  if p.parts = [] then none else some { p with parts := p.parts.dropLast ++ [name] }

def withSuffix? (p : Path) (suffix : String) : Option Path := p.withName? (p.stem ++ suffix)

def child (p : Path) (name : String) : Path := { p with parts := p.parts ++ [name] }

def follow (parts : List String) (name : String) : List String :=
  if name = ".." then parts.dropLast else parts ++ [name]

def resolve (p cwd : Path) : Path :=
  if p.root = "" then { cwd with parts := p.parts.foldl follow cwd.parts }
  else { root := "/", parts := p.parts.foldl follow [] }

end Path

end ObjectiveJ
