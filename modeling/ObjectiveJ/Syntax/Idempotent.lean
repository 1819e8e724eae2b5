import ObjectiveJ.Tree.Basic

/-!
# Expressions that may be evaluated twice

The operand of a dereference is written twice if it is updated, so evaluating it twice must be the
same as evaluating it once. Only some forms of expressions are known to have this property. The
parts of an expression are asked from left to right until one of them has it not; a part that is
asked and cannot be used leaves the question open.
-/

namespace ObjectiveJ

def bothHold? (a b : Option Bool) : Option Bool :=
  match a with
  | some true => b
  | a => a

def allHold? : List (Option Bool) → Option Bool
  | [] => some true
  | a :: rest => bothHold? a (allHold? rest)

mutual

/-- Whether evaluating an expression twice is the same as evaluating it once. Calls, updates,
assignments, message sends, logical operators and `this` are not taken for such. -/
def Value.idempotent? : Value → Option Bool
  | .data j => some j.isNull
  | .tree t => t.idempotent?
  | _ => some false

def Tree.idempotent? : Tree → Option Bool
  | ⟨type, _, fields, _⟩ =>
    match type with
    | .identifier => some true
    | .literal => some true
    | .memberExpression =>
      bothHold? (idempotentField? "object" fields)
        (if ((fields.lookup "computed").getD .null).truthy then idempotentField? "property" fields
          else some true)
    | .arrayExpression => idempotentItems? "elements" fields >>= allHold?
    | .dictionaryLiteral => do
      let keys ← idempotentItems? "keys" fields
      let values ← idempotentItems? "values" fields
      allHold? (keys.zipWith bothHold? values)
    | .objectExpression => propertyValues? fields >>= allHold?
    | .functionExpression => idempotentItems? "params" fields >>= allHold?
    | .unaryExpression =>
      if ((fields.lookup "operator").getD .null).isText "delete" then some false
      else idempotentField? "argument" fields
    | .binaryExpression =>
      bothHold? (idempotentField? "left" fields) (idempotentField? "right" fields)
    | .conditionalExpression =>
      bothHold? (idempotentField? "test" fields)
        (bothHold? (idempotentField? "consequent" fields) (idempotentField? "alternate" fields))
    | .sequenceExpression => idempotentItems? "expressions" fields >>= allHold?
    | .dereference => idempotentField? "ref" fields
    | .reference => idempotentField? "ref" fields
    | _ => some false

def idempotentField? (name : String) : List (String × Value) → Option Bool
  | [] => none
  | (field, value) :: rest =>
    if field = name then value.idempotent? else idempotentField? name rest

def idempotentItems? (name : String) : List (String × Value) → Option (List (Option Bool))
  | [] => none
  | (field, value) :: rest =>
    if field = name then value.idempotentEach? else idempotentItems? name rest

/-- The answers for the expressions of a list; the items of a text or an object are no expressions.
-/
def Value.idempotentEach? : Value → Option (List (Option Bool))
  | .list items => some (idempotentList items)
  | .tuple items => some (idempotentList items)
  | .data j => j.items?.map fun items => items.map fun _ => some false
  | _ => none

def idempotentList : List Value → List (Option Bool)
  | [] => []
  | item :: rest => item.idempotent? :: idempotentList rest

/-- The answers for the values of the properties of an object. The keys are names and do not
count. -/
def propertyValues? : List (String × Value) → Option (List (Option Bool))
  | [] => none
  | (field, value) :: rest =>
    if field = "properties" then value.propertyValueEach? else propertyValues? rest

def Value.propertyValueEach? : Value → Option (List (Option Bool))
  | .list items => some (propertyValueList items)
  | .tuple items => some (propertyValueList items)
  | .data j => j.items?.map fun items => items.map fun _ => none
  | _ => none

def propertyValueList : List Value → List (Option Bool)
  | [] => []
  | .tree ⟨_, _, fields, _⟩ :: rest => idempotentField? "value" fields :: propertyValueList rest
  | _ :: rest => none :: propertyValueList rest

end

end ObjectiveJ
