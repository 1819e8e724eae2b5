import ObjectiveJ.Tree.Basic

/-!
# Ancestry of the node being compiled

What surrounds a node decides how it is laid out. Some types of nodes are *parents*: while one is
compiled, the statements seen in it are kept, and it counts as a statement of the parent around it.
Other types are plain statements. Types of expressions leave no trace.

`previousType` and `parentType` are the two questions that a layout rule asks. `varBefore` is asked
by a check that looks for a `var` statement in front of an assignment.
-/

namespace ObjectiveJ

/-- What a statement is to the check of misplaced assignments. -/
inductive StatementRole where
  /-- An expression statement that assigns, or a sequence of expressions. -/
  | assignment
  /-- A `var` statement, and the place of its last declaration. -/
  | vars (last : Option Location)
  | other

structure Statement where
  serial : Nat
  type : String
  role : StatementRole := .other

structure Parent where
  self : Statement
  statements : List Statement := []

/-- The parents around a node, innermost first. -/
structure Ancestry where
  count : Nat := 0
  parents : List Parent := []
  outside : List Statement := []

namespace Ancestry

variable (a : Ancestry)

def statementTypes : List String := [
  "BreakStatement", "ContinueStatement", "DebuggerStatement", "EmptyStatement",
  "ExpressionStatement", "LabeledStatement", "ReturnStatement", "ThrowStatement",
  "objj_ClassStatement", "objj_GlobalStatement", "objj_ImportStatement",
  "objj_TypeDefStatement"]

def parentTypes : List String := [
  "BlockStatement", "CaseStatement", "DoWhileStatement", "ElseIfStatement", "ElseStatement",
  "ForInStatement", "ForStatement", "FunctionDeclaration", "FunctionExpression", "IfStatement",
  "Lambda", "ObjectExpression", "Program", "SwitchStatement", "TryStatement",
  "VariableDeclaration", "WhileStatement", "WithStatement", "objj_ClassDeclaration",
  "objj_MethodDeclaration", "objj_ProtocolDeclaration"]

def isStatement (type : String) : Bool := statementTypes.contains type

def isParent (type : String) : Bool := parentTypes.contains type

def statements : List Statement :=
  match a.parents with
  | [] => a.outside
  | p :: _ => p.statements

def record (s : Statement) (a : Ancestry) : Ancestry :=
  match a.parents with
  | [] => { a with outside := s :: a.outside }
  | p :: rest => { a with parents := { p with statements := s :: p.statements } :: rest }

/-- Enters a node. A parent that is in no other parent is not recorded as a statement. -/
def push (type : String) (role : StatementRole) (a : Ancestry) : Ancestry :=
  let s : Statement := { serial := a.count, type, role }
  let a := { a with count := a.count + 1 }
  if isParent type then
    let a := if a.parents.isEmpty then a else a.record s
    { a with parents := { self := s } :: a.parents }
  else if isStatement type then a.record s
  else a

/-- Leaves a node. The statements of the outermost parent are kept after it is left. -/
def pop (type : String) (a : Ancestry) : Ancestry :=
  if isParent type then
    match a.parents with
    | [] => a
    | [p] => { a with parents := [], outside := p.statements }
    | _ :: rest => { a with parents := rest }
  else a

/-- The type of the statement before the current one. A parent and a statement are themselves the
last ones in their list. -/
def previousType (type : String) : Option String :=
  if isParent type then
    (a.parents[1]?.bind fun p => p.statements[1]?).map (·.type)
  else if isStatement type then a.statements[1]?.map (·.type)
  else a.statements[0]?.map (·.type)

/-- The type of a parent: the nearest one, or the one `index` levels above it. A parent is not a
parent of itself. -/
def parentType (type : String) (index : Nat) : Option String :=
  let index := if isParent type then index + 1 else index
  a.parents[index]?.map (·.self.type)

/-- The type of a parent at any level, as `parentType`; none if the level is further in than the
innermost parent. -/
def parentTypeAt? (type : String) (index : Int) : Option (Option String) :=
  let level := if isParent type then index + 1 else index
  if level < 0 then none else some (a.parents[level.toNat]?.map (·.self.type))

def enclosing : Option Statement := a.statements.head?

def beforeSerial (serial : Nat) : List Statement → Option Statement
  | [] => none
  | s :: rest => if s.serial = serial then rest.head? else beforeSerial serial rest

def before (serial : Nat) : Option Statement := beforeSerial serial a.statements

/-- The place of the last declaration of the `var` statement before an assignment, if the current
statement is an assignment and follows one. -/
def varBefore : Option (Option Location) :=
  match a.enclosing with
  | some { serial, role := .assignment, .. } =>
    match a.before serial with
    | some { role := .vars last, .. } => some last
    | _ => none
  | _ => none

@[simp] theorem parents_pop_push (a : Ancestry) (type : String) (role : StatementRole)
    (h : isParent type = true) :
    ((a.push type role).pop type).parents =
      match a.parents with
      | [] => []
      | p :: rest =>
        { p with statements := ⟨a.count, type, role⟩ :: p.statements } :: rest := by
  unfold push pop
  cases hp : a.parents <;> simp [h, record]

end Ancestry

end ObjectiveJ
