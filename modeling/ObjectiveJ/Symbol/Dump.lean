import ObjectiveJ.Symbol.Lookup
import ObjectiveJ.Tree.Dump

/-!
# Symbols as JSON

A view of a symbol table for tools: what is registered, in order of registration. There is no view
of names that cannot be shown, and none of a class that is registered as a protocol.
-/

namespace ObjectiveJ

def Method.toJson? (m : Method) : Option Json := do
  return .arr [← m.selector.plain?, ← jsonOfValues? m.types]

def jsonOfMethods? (t : Table Key Method) : Option Json := do
  return .arr (← t.values.mapM Method.toJson?)

def Ivar.toJson? (i : Ivar) : Option Json := jsonOfValues? [i.name, i.type, i.isOutlet]

def Symbols.Requirement.toJson? (r : Symbols.Requirement) : Option Json := do
  return .arr [← r.method.selector.plain?, .str r.kind.marker, ← r.protocol.name.plain?]

namespace Symbols

variable (s : Symbols)

def nameJson? (id : Option DefinitionId) : Option Json :=
  match id.bind s.definition? with
  | some d => d.name.plain?
  | none => some .null

def classJson? (key : Value) (id : ClassId) : Option Json := do
  let c ← s.class? id
  return .obj [("key", ← key.plain?), ("name", ← c.name.plain?), ("stub", .bool c.isStub),
    ("superclass", ← s.nameJson? c.superclass), ("base", ← s.nameJson? c.base),
    ("ivars", .arr (← c.ivars.values.mapM Ivar.toJson?)),
    ("instance_methods", ← jsonOfMethods? c.instanceMethods),
    ("class_methods", ← jsonOfMethods? c.classMethods),
    ("protocols", ← jsonOfValues? c.protocols.names)]

def protocolJson? (id : ProtocolId) : Option Json := do
  let p ← s.protocol? id
  return .obj [("name", ← p.name.plain?),
    ("incorporated", .arr (← p.incorporated.mapM fun id => s.nameJson? (some id))),
    ("required_instance", ← jsonOfMethods? p.requiredInstance),
    ("required_class", ← jsonOfMethods? p.requiredClass),
    ("optional_instance", ← jsonOfMethods? p.optionalInstance),
    ("optional_class", ← jsonOfMethods? p.optionalClass)]

def toJson? : Option Json := do
  return .obj [
    ("classes", .arr (← s.classes.pairs.mapM fun (key, id) => s.classJson? key id)),
    ("protocols", .arr (← s.protocols.values.mapM s.protocolJson?)),
    ("typedefs", ← jsonOfValues? s.typedefs.names)]

end Symbols

end ObjectiveJ
