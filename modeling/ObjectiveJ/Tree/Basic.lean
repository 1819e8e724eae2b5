import ObjectiveJ.Json.Display
import ObjectiveJ.Key
import ObjectiveJ.Tree.NodeType

/-!
# Syntax trees

A program is a tree of nodes. A node has a type, a span in the source and the values of its fields,
and a field may hold anything: the fields of each type are listed in `Schema`, but what they hold is
up to the program that is given. So whoever walks a tree asks for what is needed, and a value that
has no such part, or is no text or list where one is needed, cannot be used.

The same goes for the parts of a location, which are a text and two numbers as a rule.
-/

namespace ObjectiveJ

mutual

inductive Value where
  | data (json : Json)
  | list (items : List Value)
  /-- A list that never changes. -/
  | tuple (items : List Value)
  | location (value : Location)
  | tree (node : Tree)
  | accessors (property getter setter readonly readwrite copy : Value)

structure Location where
  file : Value
  line : Value
  column : Value

/-- Where a node stands in the source: the location of its start, and the offsets of its start and
of its end. -/
structure Span where
  location : Option Location := none
  start : Int := 0
  stop : Int := 0

/-- A node: its type, its span and its fields in order. The number tells it from the other nodes of
a program. -/
structure Tree where
  type : NodeType
  span : Span
  fields : List (String × Value)
  number : Nat := 0

end

namespace Value

@[match_pattern] abbrev null : Value := .data .null

@[match_pattern] abbrev bool (b : Bool) : Value := .data (.bool b)

@[match_pattern] abbrev str (s : String) : Value := .data (.str s)

@[match_pattern] abbrev int (n : Int) : Value := .data (.int n)

instance : Inhabited Value := ⟨null⟩

instance : Inhabited Location := ⟨⟨null, null, null⟩⟩

instance : Inhabited Tree := ⟨⟨default, {}, [], 0⟩⟩

mutual

/-- A value of a JSON text. Its lists can change. -/
def ofJson : Json → Value
  | .arr items => .list (ofItems items)
  | j => .data j

def ofItems : List Json → List Value
  | [] => []
  | item :: rest => ofJson item :: ofItems rest

end

def isNull : Value → Bool
  | .data .null => true
  | _ => false

def truthy : Value → Bool
  | .data j => j.truthy
  | .list items => !items.isEmpty
  | .tuple items => !items.isEmpty
  | _ => true

def text? : Value → Option String
  | .str s => some s
  | _ => none

def whole? : Value → Option Int
  | .data j => j.whole?
  | _ => none

def isText (v : Value) (s : String) : Bool := v.text? = some s

def items? : Value → Option (List Value)
  | .list items => some items
  | .tuple items => some items
  | .data j => j.items?.map ofItems
  | _ => none

/-- The items of a list or the characters of a text, which may be asked for by their position. -/
def sequence? : Value → Option (List Value)
  | .data (.obj _) => none
  | v => v.items?

/-- How many values there are one after another. -/
def size? (v : Value) : Option Nat := v.items?.map List.length

end Value

namespace Tree

def location (t : Tree) : Option Location := t.span.location

def get? (t : Tree) (field : String) : Option Value := t.fields.lookup field

end Tree

namespace Value

def ofLocation : Option Location → Value
  | some l => .location l
  | none => null

def location? : Value → Option Location
  | .location l => some l
  | _ => none

/-- A part of a value by its name: a field of a node, or a part of an accessor clause. -/
def part? (v : Value) (name : String) : Option Value :=
  match v with
  | .tree t => t.get? name
  | .accessors property getter setter readonly readwrite copy =>
    [("property", property), ("getter", getter), ("setter", setter), ("readonly", readonly),
      ("readwrite", readwrite), ("copy", copy)].lookup name
  | _ => none

def isNode (v : Value) (type : NodeType) : Bool :=
  match v with
  | .tree t => t.type = type
  | _ => false

def site : Value → Option Location
  | .tree t => t.location
  | _ => none

/-- What a message points at that is about a value: the location of a node, else the value. -/
def anchor : Value → Value
  | .tree t => ofLocation t.location
  | v => v

end Value

mutual

def Value.key? : Value → Option Key
  | .data j => j.key?
  | .list _ => none
  | .tuple items => keyOfItems? items
  | .location l => l.key?
  | .tree ⟨_, _, _, number⟩ => some (.node number)
  | .accessors .. => none

def keyOfItems? : List Value → Option Key
  | [] => some .done
  | item :: rest => do return .item (← item.key?) (← keyOfItems? rest)

def Location.key? : Location → Option Key
  | ⟨file, line, column⟩ => do return .place (← file.key?) (← line.key?) (← column.key?)

end

mutual

def Value.quoted : Value → String
  | .data j => j.quoted
  | .list items => "[" ++ ", ".intercalate (quotedItems items) ++ "]"
  | .tuple items =>
    "(" ++ ", ".intercalate (quotedItems items) ++ (if items.length = 1 then ",)" else ")")
  | .location l => l.quoted
  | .tree t => t.quoted
  | .accessors property getter setter readonly readwrite copy =>
    "AccessorSpec(property=" ++ property.quoted ++ ", getter=" ++ getter.quoted ++ ", setter=" ++
      setter.quoted ++ ", readonly=" ++ readonly.quoted ++ ", readwrite=" ++ readwrite.quoted ++
      ", copy=" ++ copy.quoted ++ ")"

def quotedItems : List Value → List String
  | [] => []
  | item :: rest => item.quoted :: quotedItems rest

def Location.quoted : Location → String
  | ⟨file, line, column⟩ =>
    "SourceLocation(filename=" ++ file.quoted ++ ", line=" ++ line.quoted ++ ", column=" ++
      column.quoted ++ ")"

def Tree.quoted : Tree → String
  | ⟨type, _, fields, _⟩ => type.title ++ "(" ++ ", ".intercalate (quotedFields fields) ++ ")"

def quotedFields : List (String × Value) → List String
  | [] => []
  | (name, value) :: rest => (name ++ "=" ++ value.quoted) :: quotedFields rest

end

mutual

/-- A value as messages show it: a text as it is, a location by its parts, every other value as it
is quoted. -/
def Value.display : Value → String
  | .data j => j.display
  | .location l => l.text
  | v => v.quoted

def Location.text : Location → String
  | ⟨file, line, column⟩ => file.display ++ ":" ++ line.display ++ ":" ++ column.display

end

end ObjectiveJ
