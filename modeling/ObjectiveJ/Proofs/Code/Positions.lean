import Mathlib.Algebra.BigOperators.Group.Finset.Basic
import ObjectiveJ.Proofs.Code.Contents
import ObjectiveJ.Proofs.Nodes
import ObjectiveJ.Syntax.Idempotent

/-!
# Where the code of a program comes from

Not every part of a node has code of its own: the names of variables, types, selectors and labels
are written along with the node. `NodeType.codeParts` lists the parts that have. The methods of the
optional part of a protocol have none, but what else stands there has.

Some of the nodes at these places have an effect when they are evaluated (`Tree.isEffect`), so their
code must not be lost and must not be written twice. The nodes in the body of a function may be left
out of account. An expression that may be evaluated twice has no effect but in the bodies of
functions (`Value.tally_of_idempotent`).
-/

namespace ObjectiveJ

variable {v : Value} {answers : List (Option Bool)} {name : String} {t : Tree} {items : List Value}

/-- The parts of a node that have code of their own. -/
def NodeType.codeFields : NodeType → List String
  | .program | .blockStatement | .classDeclaration | .methodDeclaration | .catchClause
  | .functionDeclaration | .functionExpression | .labeledStatement => ["body"]
  | .expressionStatement => ["expression"]
  | .withStatement => ["object", "body"]
  | .returnStatement | .throwStatement | .unaryExpression | .updateExpression => ["argument"]
  | .ifStatement | .conditionalExpression => ["test", "consequent", "alternate"]
  | .switchStatement => ["discriminant", "cases"]
  | .switchCase => ["test", "consequent"]
  | .tryStatement => ["block", "handler", "finalizer"]
  | .whileStatement | .doWhileStatement => ["test", "body"]
  | .forStatement => ["init", "test", "update", "body"]
  | .forInStatement => ["left", "right", "body"]
  | .variableDeclaration => ["declarations"]
  | .variableDeclarator => ["init"]
  | .arrayExpression | .arrayLiteral => ["elements"]
  | .objectExpression => ["properties"]
  | .property => ["key", "value"]
  | .sequenceExpression => ["expressions"]
  | .binaryExpression | .logicalExpression | .assignmentExpression => ["left", "right"]
  | .callExpression | .newExpression => ["callee", "arguments"]
  | .memberExpression => ["object", "property"]
  | .messageSendExpression => ["receiver", "args", "var_args"]
  | .dictionaryLiteral => ["values", "keys"]
  | .dereference => ["ref"]
  | _ => []

/-- The parts of a node that have code of their own, each with whether the methods in it are
optional ones, if so those at the node are or not. -/
def NodeType.codeParts : NodeType → Bool → List (String × Bool)
  | .classDeclaration, _ => [("body", false)]
  | .protocolDeclaration, _ => [("required", false), ("optional", true)]
  | .methodDeclaration, true => []
  | type, optional => type.codeFields.map (·, optional)

mutual

def Value.codeNodes : Bool → Value → List Tree
  | o, .tree t => t.codeNodes o
  | o, .list items => codeNodesOfItems o items
  | o, .tuple items => codeNodesOfItems o items
  | o, .accessors property getter setter readonly readwrite copy =>
    property.codeNodes o ++ getter.codeNodes o ++ setter.codeNodes o ++ readonly.codeNodes o ++
      readwrite.codeNodes o ++ copy.codeNodes o
  | _, _ => []

def Tree.codeNodes : Bool → Tree → List Tree
  | o, ⟨type, span, fields, number⟩ =>
    ⟨type, span, fields, number⟩ :: (type.codeParts o).flatMap fun p => codeNodesIn p.2 p.1 fields

def codeNodesIn : Bool → String → List (String × Value) → List Tree
  | _, _, [] => []
  | o, name, (field, value) :: rest =>
    if field = name then value.codeNodes o else codeNodesIn o name rest

def codeNodesOfItems : Bool → List Value → List Tree
  | _, [] => []
  | o, item :: rest => item.codeNodes o ++ codeNodesOfItems o rest

end

theorem lookup_cons_eq (name key : String) (value : Value) (rest : List (String × Value)) :
    ((key, value) :: rest).lookup name = if key = name then some value else rest.lookup name := by
  rw [List.lookup_cons]
  by_cases h : key = name
  · simp [h]
  · rw [if_neg h, beq_eq_false_iff_ne.2 (Ne.symm h)]

theorem codeNodesIn_eq (o : Bool) (name : String) (fields : List (String × Value)) :
    codeNodesIn o name fields = ((fields.lookup name).map (Value.codeNodes o)).getD [] := by
  induction fields with
  | nil => rw [codeNodesIn, List.lookup_nil]; rfl
  | cons field rest ih =>
    obtain ⟨key, value⟩ := field
    rw [codeNodesIn, lookup_cons_eq, ih]
    split <;> rfl

mutual

theorem Value.codeNodes_subset (o : Bool) (v : Value) : v.codeNodes o ⊆ v.nodes := by
  cases v with
  | tree t =>
    rw [Value.codeNodes, Value.nodes]
    exact Tree.codeNodes_subset o t
  | list items =>
    rw [Value.codeNodes, Value.nodes]
    exact codeNodesOfItems_subset o items
  | tuple items =>
    rw [Value.codeNodes, Value.nodes]
    exact codeNodesOfItems_subset o items
  | accessors property getter setter readonly readwrite copy =>
    rw [Value.codeNodes, Value.nodes]
    have happend {as bs cs ds : List Tree} (h : as ⊆ cs) (h' : bs ⊆ ds) : as ++ bs ⊆ cs ++ ds :=
      List.append_subset.2 ⟨List.subset_append_of_subset_left ds h,
        List.subset_append_of_subset_right cs h'⟩
    exact happend (happend (happend (happend (happend (Value.codeNodes_subset o property)
      (Value.codeNodes_subset o getter)) (Value.codeNodes_subset o setter))
      (Value.codeNodes_subset o readonly)) (Value.codeNodes_subset o readwrite))
        (Value.codeNodes_subset o copy)
  | data | location => exact List.nil_subset _

theorem Tree.codeNodes_subset (o : Bool) (t : Tree) : t.codeNodes o ⊆ t.nodes := by
  obtain ⟨type, span, fields, number⟩ := t
  rw [Tree.codeNodes, Tree.nodes]
  refine List.cons_subset_cons _ fun u hu => ?_
  obtain ⟨p, _, hu⟩ := List.mem_flatMap.1 hu
  exact codeNodesIn_subset p.2 p.1 fields hu

theorem codeNodesIn_subset (o : Bool) (name : String) (fields : List (String × Value)) :
    codeNodesIn o name fields ⊆ nodesOfFields fields := by
  cases fields with
  | nil => exact List.nil_subset _
  | cons field rest =>
    obtain ⟨key, value⟩ := field
    rw [codeNodesIn, nodesOfFields]
    split
    · exact List.Subset.trans (Value.codeNodes_subset o value) (List.subset_append_left ..)
    · exact List.Subset.trans (codeNodesIn_subset o name rest) (List.subset_append_right ..)

theorem codeNodesOfItems_subset (o : Bool) (items : List Value) :
    codeNodesOfItems o items ⊆ nodesOfItems items := by
  cases items with
  | nil => exact List.nil_subset _
  | cons item rest =>
    rw [codeNodesOfItems, nodesOfItems, List.append_subset]
    exact ⟨List.subset_append_of_subset_left _ (Value.codeNodes_subset o item),
      List.subset_append_of_subset_right _ (codeNodesOfItems_subset o rest)⟩

end

/-! ### Effects -/

/-- Calls, updates, assignments, deletions, messages and array literals have an effect. -/
def Tree.isEffect (t : Tree) : Bool :=
  match t.type with
  | .callExpression | .newExpression | .updateExpression | .assignmentExpression
  | .messageSendExpression | .arrayLiteral => true
  | .unaryExpression => ((t.get? "operator").getD .null).isText "delete"
  | _ => false

/-- What the code of a program is looked at for. Its brackets are of interest if the names of the
program have none, and its effects may have to be counted. -/
structure Account where
  skips : Tree → Bool
  clear : Prop
  once : Prop
  isInline : Bool
  known : Nat

def Account.counts (A : Account) (t : Tree) : Bool := t.isEffect && !A.skips t

def Account.share (A : Account) (t : Tree) : Multiset Tree := if A.counts t then {t} else 0

/-- The nodes in a value that have code of their own and count. -/
def Value.tally (A : Account) (o : Bool) (v : Value) : Multiset Tree :=
  (((v.codeNodes o).filter A.counts : List Tree) : Multiset Tree)

def Tree.tallyOf (A : Account) (o : Bool) (t : Tree) (name : String) : Multiset Tree :=
  ((t.get? name).map (Value.tally A o)).getD 0

variable {A : Account} {o : Bool}

theorem Account.share_of_not_isEffect (h : t.isEffect = false) : A.share t = 0 := by
  simp [share, counts, h]

theorem Tree.tallyOf_of_get? (h : t.get? name = some v) : t.tallyOf A o name = v.tally A o := by
  rw [tallyOf, h]
  rfl

@[simp] theorem Value.tally_data (j : Json) : (Value.data j).tally A o = 0 := rfl

theorem coe_filter_cons (A : Account) (t : Tree) (ts : List Tree) :
    (((t :: ts).filter A.counts : List Tree) : Multiset Tree) =
      A.share t + ((ts.filter A.counts : List Tree) : Multiset Tree) := by
  rw [List.filter_cons, Account.share]
  split
  · rfl
  · rw [zero_add]

theorem coe_filter_append (A : Account) (ts us : List Tree) :
    (((ts ++ us).filter A.counts : List Tree) : Multiset Tree) =
      ((ts.filter A.counts : List Tree) : Multiset Tree) +
        ((us.filter A.counts : List Tree) : Multiset Tree) := by
  rw [List.filter_append, ← Multiset.coe_add]

/-- A node counts itself and its parts. -/
theorem Value.tally_tree (t : Tree) : (Value.tree t).tally A o =
    A.share t + ((t.type.codeParts o).map fun p => t.tallyOf A p.2 p.1).sum := by
  obtain ⟨type, span, fields, number⟩ := t
  rw [Value.tally, Value.codeNodes, Tree.codeNodes, coe_filter_cons]
  refine congrArg _ ?_
  induction type.codeParts o with
  | nil => rfl
  | cons p rest ih =>
    rw [List.flatMap_cons, coe_filter_append, ih, List.map_cons, List.sum_cons]
    refine congrArg (· + _) ?_
    rw [codeNodesIn_eq, Tree.tallyOf, Tree.get?]
    cases fields.lookup p.1 with
    | none => rfl
    | some v => rfl

theorem Value.tally_items? (h : v.items? = some items) :
    v.tally A o = (items.map (Value.tally A o)).sum := by
  have hitems (items : List Value) :
      (((codeNodesOfItems o items).filter A.counts : List Tree) : Multiset Tree) =
      (items.map (Value.tally A o)).sum := by
    induction items with
    | nil => rfl
    | cons item rest ih =>
      rw [codeNodesOfItems, coe_filter_append, ih, List.map_cons, List.sum_cons]
      rfl
  cases v with
  | list ws =>
    cases h
    rw [Value.tally, Value.codeNodes, hitems]
  | tuple ws =>
    cases h
    rw [Value.tally, Value.codeNodes, hitems]
  | data j =>
    obtain ⟨js, _, rfl⟩ := Option.map_eq_some_iff.1 h
    have hnone := codeNodesOfItems_subset o (Value.ofItems js)
    rw [nodesOfItems_ofItems, List.subset_nil] at hnone
    rw [tally_data, ← hitems, hnone]
    rfl
  | location | tree | accessors => cases h

theorem Tree.tallyOf_items? (h : (t.get? name).bind Value.items? = some items) :
    t.tallyOf A o name = (items.map (Value.tally A o)).sum := by
  obtain ⟨v, hv, hitems⟩ := Option.bind_eq_some_iff.1 h
  rw [tallyOf_of_get? hv, Value.tally_items? hitems]

theorem Value.tally_eq_zero (h : ∀ t ∈ v.nodes, A.skips t = true) : v.tally A o = 0 := by
  rw [tally, Multiset.coe_eq_zero, List.filter_eq_nil_iff]
  intro t ht
  simp [Account.counts, h t (v.codeNodes_subset o ht)]

theorem Value.tally_of_not_truthy (h : v.truthy = false) : v.tally A o = 0 := by
  cases v with
  | list items =>
    obtain rfl : items = [] := by simpa [truthy] using h
    rfl
  | tuple items =>
    obtain rfl : items = [] := by simpa [truthy] using h
    rfl
  | data j => rfl
  | location | tree | accessors => cases h

theorem Value.tally_of_size? (h : v.size? = some 0) : v.tally A o = 0 := by
  obtain ⟨items, hitems, hlength⟩ := Option.map_eq_some_iff.1 h
  obtain rfl := List.eq_nil_of_length_eq_zero hlength
  rw [tally_items? hitems]
  rfl

theorem Value.size?_of_not_truthy {k : Nat} (h : v.truthy = false) (hk : v.size? = some k) :
    k = 0 := by
  obtain ⟨items, hitems, rfl⟩ := Option.map_eq_some_iff.1 hk
  cases v with
  | list vs | tuple vs =>
    cases hitems
    simpa [truthy] using h
  | data j =>
    obtain ⟨js, hjs, rfl⟩ := Option.map_eq_some_iff.1 hitems
    have hnone : js = [] := by
      cases j with
      | arr js' =>
        cases hjs
        simpa [truthy, Json.truthy] using h
      | str r =>
        cases hjs
        simpa [truthy, Json.truthy] using h
      | obj ms =>
        cases hjs
        simpa [truthy, Json.truthy] using h
      | null | bool | int | float => cases hjs
    rw [hnone, Value.ofItems]
    rfl
  | location | tree | accessors => cases h

theorem Value.tally_of_isNull (h : v.isNull = true) : v.tally A o = 0 := by
  cases v with
  | data j => rfl
  | list | tuple | location | tree | accessors => cases h

def Value.tallyOf (A : Account) (o : Bool) (v : Value) (name : String) : Multiset Tree :=
  ((v.part? name).map (Value.tally A o)).getD 0

theorem Value.tallyOf_of_part? {x : Value} (h : v.part? name = some x) :
    v.tallyOf A o name = x.tally A o := by
  rw [tallyOf, h]
  rfl

/-- What counts in a node that has no effect itself. -/
theorem Value.tally_of_isNode {type : NodeType} (h : v.isNode type = true)
    (heffect : ∀ t : Tree, t.type = type → t.isEffect = false) :
    v.tally A o = ((type.codeParts o).map fun p => v.tallyOf A p.2 p.1).sum := by
  cases v with
  | tree t =>
    obtain rfl : t.type = type := by simpa [isNode] using h
    rw [tally_tree, A.share_of_not_isEffect (heffect t rfl), zero_add]
    rfl
  | data | list | tuple | location | accessors => cases h

theorem Value.tally_of_isLeaf {type : NodeType} (h : v.isNode type = true)
    (htype : type = .identifier ∨ type = .literal ∨ type = .superReceiver) : v.tally A o = 0 := by
  rw [tally_of_isNode h fun t ht =>
    by rcases htype with rfl | rfl | rfl <;> simp [Tree.isEffect, ht]]
  rcases htype with rfl | rfl | rfl <;> rfl

/-! ### Grammar -/

def Tree.fieldIs (t : Tree) (name : String) (p : Value → Bool) : Bool :=
  p ((t.get? name).getD .null)

def Tree.itemsAre (t : Tree) (name : String) (p : Value → Bool) : Bool :=
  t.fieldIs name fun v => (v.items?.getD []).all p

theorem Tree.fieldIs_of_get? {p : Value → Bool} (h : t.fieldIs name p = true)
    (hv : t.get? name = some v) : p v = true := by
  rwa [fieldIs, hv] at h

theorem Tree.itemsAre_mem {p : Value → Bool} (h : t.itemsAre name p = true)
    (hitems : (t.get? name).bind Value.items? = some items) : ∀ v ∈ items, p v = true := by
  obtain ⟨v, hv, hitems⟩ := Option.bind_eq_some_iff.1 hitems
  have hall := Tree.fieldIs_of_get? h hv
  rw [hitems] at hall
  exact List.all_eq_true.1 hall

/-- What the grammar says about the parts of a node that are compiled along with it: cases,
handlers, declarators and properties are such, the name of a property is a name, a function has a
block, and a dictionary has as many keys as values. -/
def Tree.isGrammatical (t : Tree) : Bool :=
  match t.type with
  | .switchStatement => t.itemsAre "cases" (·.isNode .switchCase)
  | .tryStatement => t.fieldIs "handler" fun v => v.isNull || v.isNode .catchClause
  | .variableDeclaration => t.itemsAre "declarations" (·.isNode .variableDeclarator)
  | .objectExpression => t.itemsAre "properties" (·.isNode .property)
  | .property => t.fieldIs "key" fun v => v.isNode .identifier || v.isNode .literal
  | .memberExpression => t.fieldIs "computed" Value.truthy ||
      t.fieldIs "property" (·.isNode .identifier)
  | .functionDeclaration | .functionExpression => t.fieldIs "body" (·.isNode .blockStatement)
  | .methodDeclaration => t.fieldIs "body" fun v => v.isNull || v.isNode .blockStatement
  | .dictionaryLiteral => t.fieldIs "keys" fun keys => t.fieldIs "values" fun values =>
    keys.size?.isSome && keys.size? = values.size?
  | _ => true

def Tree.bodyNodes (t : Tree) : List Tree :=
  match t.type with
  | .functionDeclaration | .functionExpression => ((t.get? "body").getD .null).nodes
  | _ => []

/-- The nodes in the bodies of functions in the operand of a dereference. -/
def Tree.sheltered (t : Tree) : List Tree :=
  match t.type with
  | .dereference => ((t.get? "ref").getD .null).nodes.flatMap Tree.bodyNodes
  | _ => []

/-- A node that is grammatical. What may be evaluated twice in the bodies of functions is left out
of account. -/
structure Account.Regular (A : Account) (t : Tree) : Prop where
  grammatical : t.isGrammatical = true
  sheltered : ∀ u ∈ t.sheltered, A.skips u = true

/-! ### Expressions that may be evaluated twice -/

theorem idempotentField?_eq (name : String) (fields : List (String × Value)) :
    idempotentField? name fields = (fields.lookup name).bind Value.idempotent? := by
  induction fields with
  | nil => rw [idempotentField?, List.lookup_nil]; rfl
  | cons field rest ih =>
    obtain ⟨key, value⟩ := field
    rw [idempotentField?, lookup_cons_eq, ih]
    split <;> rfl

theorem idempotentItems?_eq (name : String) (fields : List (String × Value)) :
    idempotentItems? name fields = (fields.lookup name).bind Value.idempotentEach? := by
  induction fields with
  | nil => rw [idempotentItems?, List.lookup_nil]; rfl
  | cons field rest ih =>
    obtain ⟨key, value⟩ := field
    rw [idempotentItems?, lookup_cons_eq, ih]
    split <;> rfl

theorem propertyValues?_eq (fields : List (String × Value)) :
    propertyValues? fields = (fields.lookup "properties").bind Value.propertyValueEach? := by
  induction fields with
  | nil => rw [propertyValues?, List.lookup_nil]; rfl
  | cons field rest ih =>
    obtain ⟨key, value⟩ := field
    rw [propertyValues?, lookup_cons_eq, ih]
    split <;> rfl

theorem bothHold?_eq_true {a b : Option Bool} (h : bothHold? a b = some true) :
    a = some true ∧ b = some true := by
  unfold bothHold? at h
  split at h
  · exact ⟨rfl, h⟩
  · rename_i hne
    exact absurd h hne

theorem allHold?_eq_true (h : allHold? answers = some true) : ∀ a ∈ answers, a = some true := by
  induction answers with
  | nil => simp
  | cons a rest ih =>
    obtain ⟨ha, hrest⟩ := bothHold?_eq_true h
    exact List.forall_mem_cons.2 ⟨ha, ih hrest⟩

theorem idempotentList_eq (items : List Value) :
    idempotentList items = items.map Value.idempotent? := by
  induction items with
  | nil => rw [idempotentList]; rfl
  | cons item rest ih => rw [idempotentList, ih, List.map_cons]

theorem propertyValueList_eq (items : List Value) : propertyValueList items = items.map fun p =>
    match p with
    | .tree t => (t.get? "value").bind Value.idempotent?
    | _ => none := by
  induction items with
  | nil => rw [propertyValueList]; rfl
  | cons item rest ih =>
    cases item with
    | tree t =>
      obtain ⟨type, span, fields, number⟩ := t
      rw [propertyValueList, ih, List.map_cons, idempotentField?_eq]
      rfl
    | data | list | tuple | location | accessors => rw [propertyValueList, ih] <;> simp

theorem Value.tally_of_each (h : v.idempotentEach? >>= allHold? = some true)
    (ih : ∀ w : Value, w.height < v.height → w.nodes ⊆ v.nodes → w.idempotent? = some true →
      w.tally A o = 0) : v.tally A o = 0 := by
  have hitems (items : List Value) (hv : v.items? = some items)
      (hheight : v.height = heightOfItems items + 1)
      (hall : allHold? (idempotentList items) = some true) : v.tally A o = 0 := by
    rw [tally_items? hv]
    refine List.sum_eq_zero fun m hm => ?_
    obtain ⟨w, hw, rfl⟩ := List.mem_map.1 hm
    have hlt : w.height < v.height := hheight ▸ Nat.lt_succ_of_le (height_le_heightOfItems hw)
    refine ih w hlt (nodes_items? hv hw) (allHold?_eq_true hall _ ?_)
    rw [idempotentList_eq]
    exact List.mem_map_of_mem hw
  cases v with
  | list items => exact hitems items rfl (by rw [height]) (by rwa [Value.idempotentEach?] at h)
  | tuple items => exact hitems items rfl (by rw [height]) (by rwa [Value.idempotentEach?] at h)
  | data j => exact tally_data j
  | location | tree | accessors =>
    rw [Value.idempotentEach?] at h
    · cases h
    all_goals simp

/-- Two lists of answers of one length that hold pairwise. -/
theorem allHold?_zipWith {xs ys : List (Option Bool)} (hlength : xs.length = ys.length)
    (h : allHold? (xs.zipWith bothHold? ys) = some true) :
    allHold? xs = some true ∧ allHold? ys = some true := by
  induction xs generalizing ys with
  | nil =>
    obtain rfl := List.eq_nil_of_length_eq_zero hlength.symm
    exact ⟨rfl, rfl⟩
  | cons x xs ih =>
    cases ys with
    | nil => cases hlength
    | cons y ys =>
      obtain ⟨hxy, hrest⟩ := bothHold?_eq_true h
      obtain ⟨rfl, rfl⟩ := bothHold?_eq_true hxy
      have hlength' : xs.length = ys.length := by simpa using hlength
      have hboth := ih hlength' hrest
      exact hboth

theorem Value.length_idempotentEach? (h : v.idempotentEach? = some answers) :
    v.size? = some answers.length := by
  cases v with
  | list items =>
    rw [Value.idempotentEach?] at h
    cases h
    simp [size?, items?, idempotentList_eq]
  | tuple items =>
    rw [Value.idempotentEach?] at h
    cases h
    simp [size?, items?, idempotentList_eq]
  | data j =>
    rw [Value.idempotentEach?] at h
    obtain ⟨js, hjs, rfl⟩ := Option.map_eq_some_iff.1 h
    have hlength (js : List Json) : (Value.ofItems js).length = js.length := by
      induction js with
      | nil => rw [Value.ofItems]; rfl
      | cons j js ih => rw [Value.ofItems, List.length_cons, ih, List.length_cons]
    simp [size?, items?, hjs, hlength]
  | location | tree | accessors =>
    rw [Value.idempotentEach?] at h
    · cases h
    all_goals simp

namespace Tree

variable {t : Tree} {name : String}

theorem tallyOf_of_isNode
    (h : ((t.get? name).getD .null).isNode .identifier = true ∨
      ((t.get? name).getD .null).isNode .literal = true) : t.tallyOf A o name = 0 := by
  rw [tallyOf]
  cases hname : t.get? name with
  | none => rfl
  | some w =>
    rw [hname] at h
    rcases h with h | h
    · exact Value.tally_of_isLeaf h (.inl rfl)
    · exact Value.tally_of_isLeaf h (.inr (.inl rfl))

section Parts

-- the parts of a node, where it is known already that what may be evaluated twice counts nothing
variable (ih : ∀ w : Value, w.height < t.height → w.nodes ⊆ t.nodes → w.idempotent? = some true →
  w.tally A o = 0)

include ih

theorem tallyOf_of_idempotentField? (h : idempotentField? name t.fields = some true) :
    t.tallyOf A o name = 0 := by
  rw [idempotentField?_eq] at h
  obtain ⟨w, hw, hidempotent⟩ := Option.bind_eq_some_iff.1 h
  rw [tallyOf_of_get? hw]
  refine ih w (height_get?_lt hw) ?_ hidempotent
  exact Value.nodes_part? (v := .tree t) hw

theorem tallyOf_of_idempotentItems? (h : idempotentItems? name t.fields = some answers)
    (hall : allHold? answers = some true) : t.tallyOf A o name = 0 := by
  rw [idempotentItems?_eq] at h
  obtain ⟨w, hw, heach⟩ := Option.bind_eq_some_iff.1 h
  rw [tallyOf_of_get? hw]
  refine Value.tally_of_each (by rw [heach]; exact hall) fun x hx hnodes hidempotent => ?_
  refine ih x (Nat.lt_trans hx (height_get?_lt hw)) ?_ hidempotent
  exact List.Subset.trans hnodes (Value.nodes_part? (v := .tree t) hw)

/-- The values of the properties of an object may be evaluated twice, and their keys are names. -/
theorem tallyOf_of_propertyValues? (hgrammar : t.itemsAre "properties" (·.isNode .property) = true)
    (hkeys : ∀ p ∈ t.nodes, p.type = .property → p.tallyOf A o "key" = 0)
    (h : propertyValues? t.fields = some answers) (hall : allHold? answers = some true) :
    t.tallyOf A o "properties" = 0 := by
  rw [propertyValues?_eq] at h
  obtain ⟨ps, hps, heach⟩ := Option.bind_eq_some_iff.1 h
  rw [tallyOf_of_get? hps]
  have hitems (items : List Value) (hv : ps.items? = some items)
      (hheight : ps.height = heightOfItems items + 1)
      (hvalues : propertyValueList items = answers) : ps.tally A o = 0 := by
    rw [Value.tally_items? hv]
    refine List.sum_eq_zero (List.forall_mem_map.2 fun p hp => ?_)
    have hproperty : p.isNode .property = true :=
      itemsAre_mem hgrammar (by rw [get?, hps, Option.bind_some, hv]) p hp
    cases p with
    | data | list | tuple | location | accessors => cases hproperty
    | tree p =>
      have htype : p.type = .property := by simpa [Value.isNode] using hproperty
      have hnodes : (Value.tree p).nodes ⊆ t.nodes :=
        List.Subset.trans (Value.nodes_items? hv hp) (Value.nodes_part? (v := .tree t) hps)
      have hvalue : (p.get? "value").bind Value.idempotent? = some true := by
        refine allHold?_eq_true hall _ ?_
        rw [← hvalues, propertyValueList_eq]
        exact List.mem_map.2 ⟨_, hp, rfl⟩
      obtain ⟨w, hw, hidempotent⟩ := Option.bind_eq_some_iff.1 hvalue
      have hlt : w.height < t.height := by
        have hitem := height_le_heightOfItems hp
        have hpart := height_get?_lt hw
        have hfield := height_get?_lt (t := t) hps
        rw [Value.height] at hitem
        omega
      have hzero := ih w hlt (List.Subset.trans (Value.nodes_part? (v := .tree p) hw) hnodes)
        hidempotent
      have hkey := hkeys p (hnodes (by rw [Value.nodes, nodes_eq]; exact .head _)) htype
      have hshare : A.share p = 0 := A.share_of_not_isEffect (by simp [isEffect, htype])
      simp [Value.tally_tree, htype, NodeType.codeParts, NodeType.codeFields, hshare, hkey,
        tallyOf_of_get? hw, hzero]
  cases ps with
  | list items =>
    rw [Value.propertyValueEach?] at heach
    exact hitems items rfl (by rw [Value.height]) (Option.some.inj heach)
  | tuple items =>
    rw [Value.propertyValueEach?] at heach
    exact hitems items rfl (by rw [Value.height]) (Option.some.inj heach)
  | data j => exact Value.tally_data j
  | location | tree | accessors =>
    rw [Value.propertyValueEach?] at heach
    · cases heach
    all_goals simp

end Parts

end Tree

/-- An expression that may be evaluated twice has no effect, but in the bodies of functions. -/
theorem Value.tally_of_idempotent
    (hv : ∀ t ∈ v.nodes, t.isGrammatical = true ∧ ∀ u ∈ t.bodyNodes, A.skips u = true)
    (h : v.idempotent? = some true) : v.tally A o = 0 := by
  induction hn : v.height using Nat.strong_induction_on generalizing v with
  | _ n ih =>
  subst hn
  cases v with
  | data j => exact tally_data j
  | list | tuple | location | accessors =>
    rw [Value.idempotent?] at h
    · cases h
    all_goals simp
  | tree t =>
    rw [Value.nodes] at hv
    rw [Value.idempotent?] at h
    replace ih (w : Value) (hlt : w.height < t.height) (hw : w.nodes ⊆ t.nodes)
        (hidempotent : w.idempotent? = some true) : w.tally A o = 0 :=
      ih w.height hlt (fun u hu => hv u (hw hu)) hidempotent rfl
    obtain ⟨hgrammar, hbody⟩ := hv t (by rw [Tree.nodes_eq]; exact .head _)
    have hdone (hshare : A.share t = 0)
        (hparts : ∀ p ∈ t.type.codeParts o, t.tallyOf A p.2 p.1 = 0) :
        (Value.tree t).tally A o = 0 := by
      rw [Value.tally_tree, hshare, zero_add]
      exact List.sum_eq_zero (List.forall_mem_map.2 hparts)
    have hkeys (p : Tree) (hp : p ∈ t.nodes) (htype : p.type = .property) :
        p.tallyOf A o "key" = 0 := by
      have hgrammar := (hv p hp).1
      simp only [Tree.isGrammatical, htype, Tree.fieldIs, Bool.or_eq_true] at hgrammar
      exact Tree.tallyOf_of_isNode hgrammar
    obtain ⟨type, span, fields, number⟩ := t
    cases type with
    | identifier | literal | reference =>
        exact hdone rfl (by simp [NodeType.codeParts, NodeType.codeFields])
    | memberExpression =>
      rw [Tree.idempotent?] at h
      obtain ⟨hobject, hproperty⟩ := bothHold?_eq_true h
      refine hdone rfl (List.forall_mem_cons.2
        ⟨Tree.tallyOf_of_idempotentField? ih hobject, List.forall_mem_singleton.2 ?_⟩)
      by_cases hcomputed : ((fields.lookup "computed").getD .null).truthy = true
      · rw [if_pos hcomputed] at hproperty
        exact Tree.tallyOf_of_idempotentField? ih hproperty
      · have hname : ((fields.lookup "property").getD .null).isNode .identifier = true :=
          (Bool.or_eq_true_iff.1 hgrammar).resolve_left hcomputed
        exact Tree.tallyOf_of_isNode (.inl hname)
    | arrayExpression | sequenceExpression =>
      rw [Tree.idempotent?] at h
      obtain ⟨answers, hanswers, hall⟩ := Option.bind_eq_some_iff.1 h
      exact hdone rfl (List.forall_mem_singleton.2
        (Tree.tallyOf_of_idempotentItems? ih hanswers hall))
    | dictionaryLiteral =>
      rw [Tree.idempotent?] at h
      obtain ⟨keys, hkeys, h⟩ := Option.bind_eq_some_iff.1 h
      obtain ⟨values, hvalues, hall⟩ := Option.bind_eq_some_iff.1 h
      have hlength : keys.length = values.length := by
        have hk := idempotentItems?_eq "keys" fields ▸ hkeys
        have hv := idempotentItems?_eq "values" fields ▸ hvalues
        obtain ⟨k, hk, hkeach⟩ := Option.bind_eq_some_iff.1 hk
        obtain ⟨v, hv, hveach⟩ := Option.bind_eq_some_iff.1 hv
        simpa [Tree.isGrammatical, Tree.fieldIs, Tree.get?, hk, hv, length_idempotentEach? hkeach,
          length_idempotentEach? hveach] using hgrammar
      obtain ⟨hk, hv⟩ := allHold?_zipWith hlength hall
      exact hdone rfl (List.forall_mem_cons.2 ⟨Tree.tallyOf_of_idempotentItems? ih hvalues hv,
        List.forall_mem_singleton.2 (Tree.tallyOf_of_idempotentItems? ih hkeys hk)⟩)
    | objectExpression =>
      rw [Tree.idempotent?] at h
      obtain ⟨answers, hanswers, hall⟩ := Option.bind_eq_some_iff.1 h
      exact hdone rfl (List.forall_mem_singleton.2
        (Tree.tallyOf_of_propertyValues? ih hgrammar hkeys hanswers hall))
    | functionExpression =>
      refine hdone rfl (List.forall_mem_singleton.2 ?_)
      simp only [Tree.bodyNodes] at hbody
      rw [Tree.tallyOf]
      cases hget : Tree.get? ⟨.functionExpression, span, fields, number⟩ "body" with
      | none => rfl
      | some body =>
        rw [hget] at hbody
        exact tally_eq_zero hbody
    | unaryExpression =>
      rw [Tree.idempotent?] at h
      split at h
      · cases h
      · rename_i hdelete
        refine hdone (Account.share_of_not_isEffect (Bool.eq_false_iff.2 hdelete)) ?_
        exact List.forall_mem_singleton.2 (Tree.tallyOf_of_idempotentField? ih h)
    | binaryExpression =>
      rw [Tree.idempotent?] at h
      obtain ⟨hleft, hright⟩ := bothHold?_eq_true h
      exact hdone rfl (List.forall_mem_cons.2 ⟨Tree.tallyOf_of_idempotentField? ih hleft,
        List.forall_mem_singleton.2 (Tree.tallyOf_of_idempotentField? ih hright)⟩)
    | conditionalExpression =>
      rw [Tree.idempotent?] at h
      obtain ⟨htest, h⟩ := bothHold?_eq_true h
      obtain ⟨hconsequent, halternate⟩ := bothHold?_eq_true h
      exact hdone rfl (List.forall_mem_cons.2 ⟨Tree.tallyOf_of_idempotentField? ih htest,
        List.forall_mem_cons.2 ⟨Tree.tallyOf_of_idempotentField? ih hconsequent,
          List.forall_mem_singleton.2 (Tree.tallyOf_of_idempotentField? ih halternate)⟩⟩)
    | dereference =>
      rw [Tree.idempotent?] at h
      exact hdone rfl (List.forall_mem_singleton.2 (Tree.tallyOf_of_idempotentField? ih h))
    | _ =>
      rw [Tree.idempotent?] at h
      · cases h
      all_goals simp

end ObjectiveJ
