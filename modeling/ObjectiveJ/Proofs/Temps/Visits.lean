import ObjectiveJ.Proofs.Law.Basic

/-!
# Visits and receiver temps

The hooks before and after each node divide a trace into *visits*: what was written for a node
itself, and the visits of nodes inside of it, in the order in which they were compiled. A trace can
be divided in one way only.

Functions, methods and files are scopes with receiver temps of their own. A message or literal
assigns a temp by a text such as `((___r2 = `. `Visits.Exact` says that a scope numbers and declares
its temps as it should.
-/

namespace ObjectiveJ

/-- What an instruction writes. The `self.` before a name may be taken back, which empties it, so it
counts as empty from the start. -/
inductive Piece where
  | text (s : String)
  | template (s : String)
  | splice
  | other
  deriving DecidableEq

/-- What an instruction is to the division of a trace. -/
inductive Mark where
  | enter (type : String)
  | leave (type : String)
  | piece (p : Piece)

def Instr.mark : Instr → Mark
  | .hook _ type (.plain key) _ =>
    if key = "before" then .enter type else if key = "after" then .leave type else .piece .other
  | .text _ (.str s) _ => .piece (.text (if s = "self." then "" else s))
  | .template _ s _ _ => .piece (.template s)
  | .splice _ _ => .piece .splice
  | _ => .piece .other

/-- Pieces and visits of nodes one after another. -/
inductive Visits where
  | nil
  | piece (p : Piece) (rest : Visits)
  | node (type : String) (inner rest : Visits)

namespace Visits

def append : Visits → Visits → Visits
  | nil, ws => ws
  | piece p rest, ws => piece p (rest.append ws)
  | node type inner rest, ws => node type inner (rest.append ws)

instance : Append Visits := ⟨append⟩

def flatten : Visits → List Mark
  | nil => []
  | piece p rest => .piece p :: rest.flatten
  | node type inner rest => .enter type :: (inner.flatten ++ .leave type :: rest.flatten)

@[simp] theorem nil_append (ws : Visits) : nil ++ ws = ws := rfl

@[simp] theorem piece_append (p : Piece) (vs ws : Visits) :
    piece p vs ++ ws = piece p (vs ++ ws) := rfl

@[simp] theorem node_append (type : String) (inner vs ws : Visits) :
    node type inner vs ++ ws = node type inner (vs ++ ws) := rfl

@[simp] theorem append_nil (vs : Visits) : vs ++ nil = vs := by
  induction vs with
  | nil => rfl
  | piece p rest ih => rw [piece_append, ih]
  | node type inner rest _ ih => rw [node_append, ih]

theorem append_assoc (us vs ws : Visits) : us ++ vs ++ ws = us ++ (vs ++ ws) := by
  induction us with
  | nil => rfl
  | piece p rest ih => simp only [piece_append, ih]
  | node type inner rest _ ih => simp only [node_append, ih]

@[simp] theorem flatten_append (vs ws : Visits) :
    (vs ++ ws).flatten = vs.flatten ++ ws.flatten := by
  induction vs with
  | nil => rfl
  | piece p rest ih => simp only [piece_append, flatten, ih, List.cons_append]
  | node type inner rest _ ih =>
    simp only [node_append, flatten, ih, List.cons_append, List.append_assoc]

/-! ### Temps and scopes -/

/-- The number of the temp that a text assigns. -/
def assignedTemp? (s : String) : Option Nat :=
  let k := Nat.ofDigitChars 10 (s.toList.filter Char.isDigit) 0
  if s = "((" ++ Gen.tempName k ++ " = " ∨ s = "(" ++ Gen.tempName k ++ " = " then some k else none

def assigned : Visits → List Nat
  | nil => []
  | piece (.text s) rest => (assignedTemp? s).toList ++ rest.assigned
  | piece _ rest => rest.assigned
  | node _ _ rest => rest.assigned

def isLiteral (type : String) : Bool := type = "objj_ArrayLiteral" ∨ type = "objj_DictionaryLiteral"

def isMessage (type : String) : Bool := type = "objj_MessageSendExpression"

/-- Functions and methods; the code of one is that of the node in it. -/
def isFunction (type : String) : Bool :=
  type = "FunctionDeclaration" ∨ type = "FunctionExpression" ∨ type = "objj_MethodDeclaration"

/-- Whether a node is a scope of its own; a program is one if it is wrapped in a function. -/
def isScope (wrapped : Bool) (type : String) : Bool :=
  isFunction type || wrapped && type = "Program"

def ownTemps (type : String) (inner : Visits) : List Nat :=
  if isLiteral type || isMessage type then inner.assigned else []

/-- The visits of all nodes of the scope around them, each with its type. -/
def nodes (wrapped : Bool) : Visits → List (String × Visits)
  | nil => []
  | piece _ rest => rest.nodes wrapped
  | node type inner rest =>
    (if isScope wrapped type then [] else (type, inner) :: inner.nodes wrapped) ++
      rest.nodes wrapped

/-- The pieces of the scope around them. -/
def pieces (wrapped : Bool) : Visits → List Piece
  | nil => []
  | piece p rest => p :: rest.pieces wrapped
  | node type inner rest =>
    (if isScope wrapped type then [] else inner.pieces wrapped) ++ rest.pieces wrapped

def temps (wrapped : Bool) (vs : Visits) : List Nat :=
  (vs.nodes wrapped).flatMap fun n => ownTemps n.1 n.2

/-- How deep nodes that assign temps are nested in the scope around. -/
def depth (wrapped : Bool) : Visits → Nat
  | nil => 0
  | piece _ rest => rest.depth wrapped
  | node type inner rest =>
    max (if isScope wrapped type then 0
      else inner.depth wrapped + if ownTemps type inner = [] then 0 else 1) (rest.depth wrapped)

/-- The code of every scope inside, in a function or not. -/
def scopesIn (wrapped inFunction : Bool) : Visits → List Visits
  | nil => []
  | piece _ rest => rest.scopesIn wrapped inFunction
  | node type inner rest =>
    (if inFunction then inner :: inner.scopesIn wrapped false
      else if isFunction type then inner.scopesIn wrapped true
      else if isScope wrapped type then inner :: inner.scopesIn wrapped false
      else inner.scopesIn wrapped false) ++ rest.scopesIn wrapped inFunction

/-- The code of every scope inside. -/
def scopes (wrapped : Bool) (vs : Visits) : List Visits := vs.scopesIn wrapped false

/-- The declaration of so many temps. -/
def declaration (count : Nat) : Visits :=
  if count = 0 then nil
  else piece (.template tempsHeader)
    (piece (.text (", ".intercalate ((List.range count).map fun (i : Nat) => Gen.tempName (i + 1))))
      (piece (.text ";") nil))

/-- The end of a scope after the declaration of its temps: no more than closing brackets. -/
def isClosing : Visits → Bool
  | nil => true
  | piece p rest => p ∈ [.other, .text "\x7d", .text ")();"] && rest.isClosing
  | node .. => false

def firstType? : Visits → Option String
  | nil => none
  | piece _ rest => rest.firstType?
  | node type _ _ => some type

def hasSplice : Visits → Bool
  | nil => false
  | piece p rest => p = .splice || rest.hasSplice
  | node _ _ rest => rest.hasSplice

/-- A literal takes one temp. A message takes one, unless its receiver, which is spliced in, is an
identifier, or there is none because it is sent to `super`. -/
def Takes (type : String) (inner : Visits) : Prop :=
  (isLiteral type = true → inner.assigned.length = 1) ∧
    (isMessage type = true → inner.assigned.length = 1 ∨ inner.assigned = [] ∧
      (inner.hasSplice = true → inner.firstType? = some "Identifier"))

/-- The code of a scope numbers its temps by how deep they are nested, and declares them at its
end. -/
structure Exact (wrapped : Bool) (scope : Visits) : Prop where
  mem_temps : ∀ k, k ∈ scope.temps wrapped ↔ 1 ≤ k ∧ k ≤ scope.depth wrapped
  nested : ∀ n ∈ scope.nodes wrapped, ∀ outer ∈ ownTemps n.1 n.2, ∀ inner ∈ n.2.temps wrapped,
    outer < inner
  takes : ∀ n ∈ scope.nodes wrapped, Takes n.1 n.2
  declared : ∃ code close : Visits,
    scope = code ++ declaration (scope.depth wrapped) ++ close ∧ close.isClosing = true
  once : (scope.pieces wrapped).count (.template tempsHeader) =
    if scope.depth wrapped = 0 then 0 else 1

end Visits

end ObjectiveJ
