import ObjectiveJ.Format.Basic
import ObjectiveJ.Format.Bundled
import ObjectiveJ.Host
import ObjectiveJ.Json.Reader

/-!
# Loading formats

A format is given by the name of a bundled one, by the path of a file, or as an object. A text with
a slash in it is a path; a name may end in `.json`.
-/

namespace ObjectiveJ.Format

inductive Source where
  | bundled (name : String)
  | file (path : Path)
  | spec (spec : Json)

def bundledName (text : List Char) : List Char :=
  if Text.endsWith ".json".toList text then text.take (text.length - 5) else text

def Source.ofJson : Json → Except FormatError Source
  | .null => .ok (.bundled Bundled.default)
  | .obj members => .ok (.spec (.obj members))
  | .str s =>
    if Path.isUnnamable s then .error .unusable
    else if '/' ∈ s.toList then .ok (.file (Path.ofText s))
    else .ok (.bundled (String.ofList (bundledName s.toList)))
  | _ => .error .unusable

def ofName (name : String) : Except FormatError Format :=
  match Bundled.all.lookup name with
  | some spec => ofJson name spec
  | none => .error (.unknown name (Bundled.all.map (·.1)))

def ofText (name text : String) : Except FormatError Format :=
  match Json.parse text with
  | .ok spec => ofJson name spec
  | .error .malformed => .error .invalidText
  | .error _ => .error .unusable

def load {m : Type → Type} [Monad m] (host : Host m) (value : Json) :
    m (Except FormatError Format) := do
  match Source.ofJson value with
  | .error e => return .error e
  | .ok (.bundled name) => return ofName name
  | .ok (.spec spec) => return ofJson "<format>" spec
  | .ok (.file path) =>
    let path := path.resolve host.cwd
    match ← host.read path with
    | .ok text => return ofText path.text text
    | .error .missing => return .error (.unknown path.text [])
    | .error e => return .error (.unreadable path.text (e.message path.text))

end ObjectiveJ.Format
