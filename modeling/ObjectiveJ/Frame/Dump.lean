import ObjectiveJ.Frame
import ObjectiveJ.Symbol.Dump

/-!
# Frames as JSON

A view of a frame for tools: what surrounds it, its variables in the order of their declaration, and
what waits for its end. The frames themselves have no names, so the view is told how to write them.
-/

namespace ObjectiveJ

namespace Json

def ofOptional {α : Type} (f : α → Json) : Option α → Json
  | some a => f a
  | none => .null

end Json

def Variable.toJson (name : FrameId → Json) (v : Variable) : Json :=
  .arr [.str v.kind.name, .ofOptional .str v.kind.description?, .bool v.kind.isGlobal,
    .ofOptional name v.owner]

def Frames.toJson? (fs : Frames) (symbols : Symbols) (name : FrameId → Json) (id : FrameId) :
    Option Json := do
  let f ← fs.frame? id
  return .obj [
    ("local", .bool (fs.isLocal id)),
    ("class", ← symbols.nameJson? (fs.currentClass id)),
    ("protocol", ← symbols.nameJson? (fs.currentProtocol id)),
    ("method_scope", .ofOptional (fun (id, _) => name id) (fs.currentMethod id)),
    ("method_type", ← (fs.currentMarker id).plain?),
    ("var_scope", name (fs.varFrame id)),
    ("super", ← jsonOfValues? (["-", "+"].map fun marker => fs.superRef id (.str marker))),
    ("vars", .arr (← f.vars.pairs.mapM fun (varName, v) => do
      return .arr [← varName.plain?, v.toJson name])),
    ("levels", .arr [.int f.level, .int f.maxLevel]),
    ("refs", .arr (← f.ivarRefs.pairs.mapM fun (varName, refs) => do
      return .arr [← varName.plain?, .arr (refs.map fun r => .int r.index)])),
    ("deferred", ← jsonOfValues? ((fs.parked id).map (·.message)))]

end ObjectiveJ
