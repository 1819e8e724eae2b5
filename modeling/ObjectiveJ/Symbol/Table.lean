import ObjectiveJ.Symbol.Basic
import ObjectiveJ.Text.Case

/-!
# Symbol tables

The classes, protocols and type definitions of a session. Classes and protocols live in a store and
are known by their numbers; what is registered under a name is one of these numbers. So a class that
refers to another one goes on doing so when another class is registered under that name.

For each name there is also its form in small letters, by which a misspelled name is recognized.
-/

namespace ObjectiveJ

structure Symbols where
  store : Array Definition := #[]
  classes : NameTable DefinitionId := {}
  protocols : NameTable DefinitionId := {}
  typedefs : NameTable Typedef := {}
  classSpellings : Table String String := {}
  protocolSpellings : Table String String := {}
  typedefSpellings : Table String String := {}
  nodes : Nat := 0

inductive Registration where
  | done (s : Symbols)
  | duplicate (f : Fatal)
  /-- It cannot be registered as a whole: the name is no text, or it is that of another sort of
  definition. A name that has a key is registered without its spelling. -/
  | failed (s : Symbols)

namespace Symbols

variable (s : Symbols)

def definition? (id : DefinitionId) : Option Definition := s.store[id]?

def class? (id : ClassId) : Option ClassDef :=
  (s.definition? id).bind Definition.class?

def protocol? (id : ProtocolId) : Option ProtocolDef :=
  (s.definition? id).bind Definition.protocol?

def new (d : Definition) : DefinitionId × Symbols :=
  (s.store.size, { s with store := s.store.push d })

def modifyClass (id : ClassId) (f : ClassDef → ClassDef) : Symbols :=
  { s with store := s.store.modify id fun
    | .classDef c => .classDef (f c)
    | d => d }

def modifyProtocol (id : ProtocolId) (f : ProtocolDef → ProtocolDef) : Symbols :=
  { s with store := s.store.modify id fun
    | .protocolDef p => .protocolDef (f p)
    | d => d }

def classId? (key : Key) : Option ClassId := s.classes.get? key

def lookupClass (key : Key) : Option ClassDef := (s.classId? key).bind s.class?

def lookupProtocol (name : Key) : Option Definition :=
  (s.protocols.get? name).bind s.definition?

def enterClass (key : Key) (id : ClassId) (c : ClassDef) : Registration :=
  let s := { s with classes := s.classes.set key c.registeredName id }
  match c.name.text? with
  | some name =>
    .done { s with classSpellings := s.classSpellings.set (Text.lower name) name }
  | none => .failed s

/-- Registers a class. A stub leaves a key alone that is taken; a second class under a key that is
no stub is an error. -/
def registerClass (id : ClassId) : Registration :=
  match s.class? id with
  | none => .failed s
  | some c => match c.registeredName.key? with
    | none => .failed s
    | some key => match s.lookupClass key with
      | none => s.enterClass key id c
      | some existing =>
        if c.isStub then .done s
        else if existing.isStub then s.enterClass key id c
        else
          let what := if c.category.truthy then "category" else "class"
          .duplicate
            { cause := .duplicateDefinition what c.title existing.node.site
              location := c.node.site }

def registerProtocol (id : ProtocolId) : Registration :=
  match s.definition? id with
  | none => .failed s
  | some p => match p.name.key? with
    | none => .failed s
    | some key => match s.lookupProtocol key with
      | some existing =>
        .duplicate
          { cause := .duplicateDefinition "protocol" p.name.display existing.node.site
            location := p.node.site }
      | none =>
        let s := { s with protocols := s.protocols.set key p.name id }
        match p.name.text? with
        | some name =>
          .done { s with protocolSpellings := s.protocolSpellings.set (Text.lower name) name }
        | none => .failed s

def registerTypedef (t : Typedef) : Registration :=
  match t.name.key? with
  | none => .failed s
  | some key =>
    let s := { s with typedefs := s.typedefs.set key t.name t }
    match t.name.text? with
    | some name =>
      .done { s with typedefSpellings := s.typedefSpellings.set (Text.lower name) name }
    | none => .failed s

/-- Adds a method to a class. A category also gives it to its base, if that has none. -/
def addMethod (id : ClassId) (m : Method) (kind : MethodKind) : Symbols :=
  let base := (s.class? id).bind (·.base)
  let s := s.modifyClass id (·.mapMethods kind (·.set m.key m))
  match base with
  | some base => s.modifyClass base (·.mapMethods kind (·.setDefault m.key m))
  | none => s

def baseTakesMethods (c : ClassDef) : Bool :=
  match c.base with
  | some base => (s.class? base).isSome
  | none => true

def spellings (names : List String) : Table String String :=
  names.foldl (fun t name => t.set (Text.lower name) name) {}

/-- The same tables, with spellings made from the names alone, which must be texts. -/
def reload? : Option Symbols := do
  let classes ← s.classes.names.mapM Value.text?
  let protocols ← s.protocols.names.mapM Value.text?
  let typedefs ← s.typedefs.names.mapM Value.text?
  return { s with
    classSpellings := spellings classes
    protocolSpellings := spellings protocols
    typedefSpellings := spellings typedefs }

/-- A known class, protocol, type definition or other name that is spelled in another way. -/
def suggestion (name : String) (others : List (Table String String)) :
    Option String :=
  let tables := [s.classSpellings, s.protocolSpellings, s.typedefSpellings] ++ others
  tables.findSome? fun t => (t.get? (Text.lower name)).filter (· ≠ name)

def protocolSuggestion (name : String) : Option String :=
  s.protocolSpellings.get? (Text.lower name)

end Symbols

end ObjectiveJ
