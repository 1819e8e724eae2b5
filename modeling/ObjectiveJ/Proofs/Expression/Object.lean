import ObjectiveJ.Proofs.Balance.Walk

/-!
# Kinds of properties

A property of an object has a kind: it is a plain value, a getter or a setter. The code of an object
is put together of the keys and values of its properties, and is the same whatever their kinds are
(`walk_withProperties`). So whoever reads the kinds off the code and is right about plain values is
right about nothing else (`kinds_read_iff`).
-/

namespace ObjectiveJ

open Gen

def Tree.withKind (p : Tree) (kind : String) : Tree :=
  { p with fields := ("kind", .str kind) :: p.fields }

def propertiesOf (ps : List Tree) (kinds : List String) : List Value :=
  List.zipWith (fun p kind => .tree (p.withKind kind)) ps kinds

def Tree.withProperties (t : Tree) (ps : List Tree) (kinds : List String) : Tree :=
  { t with fields := ("properties", .list (propertiesOf ps kinds)) :: t.fields }

variable {t : Tree} {ps : List Tree} {kinds kinds' : List String}

theorem Expression.properties_propertiesOf (walk : Walker) (site : Site)
    (h : kinds.length = kinds'.length) :
    between (comma site.buffer site.type) (property walk · site) (propertiesOf ps kinds) =
      between (comma site.buffer site.type) (property walk · site) (propertiesOf ps kinds') := by
  -- neither the key nor the value is looked up under the kind
  have hsame (p : Tree) (kind kind' : String) :
      property walk (.tree (p.withKind kind)) site =
        property walk (.tree (p.withKind kind')) site :=
    rfl
  induction ps generalizing kinds kinds' with
  | nil => rfl
  | cons p ps ih =>
    cases kinds with
    | nil =>
      obtain rfl := List.eq_nil_of_length_eq_zero h.symm
      rfl
    | cons kind kinds =>
      obtain ⟨kind', kinds', rfl⟩ := List.exists_cons_of_length_eq_add_one h.symm
      have hrest := ih (Nat.succ.inj h)
      cases ps with
      | nil => exact hsame p kind kind'
      | cons q ps =>
        cases kinds with
        | nil =>
          obtain rfl := List.eq_nil_of_length_eq_zero (Nat.succ.inj h).symm
          exact hsame p kind kind'
        | cons k kinds =>
          obtain ⟨k', kinds', rfl⟩ := List.exists_cons_of_length_eq_add_one (Nat.succ.inj h).symm
          simp only [propertiesOf, List.zipWith_cons_cons, between, hsame p kind kind'] at hrest ⊢
          rw [hrest]

theorem Expression.object_withProperties (walk : Walker) (site : Site)
    (h : kinds.length = kinds'.length) :
    object walk (t.withProperties ps kinds) site =
      object walk (t.withProperties ps kinds') site := by
  have hfield (kinds : List String) : field (t.withProperties ps kinds) "properties" =
      pure (.list (propertiesOf ps kinds)) := rfl
  have hitems (vs : List Value) : items (.list vs) = pure vs := rfl
  have hlength : (propertiesOf ps kinds).length = (propertiesOf ps kinds').length := by
    rw [propertiesOf, propertiesOf, List.length_zipWith, List.length_zipWith, h]
  have hempty : (Value.list (propertiesOf ps kinds)).truthy =
      (Value.list (propertiesOf ps kinds')).truthy :=
    congrArg not (Bool.eq_iff_iff.2 (by
      rw [List.isEmpty_iff_length_eq_zero, List.isEmpty_iff_length_eq_zero, hlength]))
  have hlocation (kinds : List String) : (t.withProperties ps kinds).location = t.location := rfl
  simp only [object, hfield, hitems, pure_bind, hempty, hlocation,
    properties_propertiesOf walk site h]

/-- The code of an object is the same for all kinds of its properties. -/
theorem walk_withProperties (ht : t.type = .objectExpression) (h : kinds.length = kinds'.length)
    (ps : List Tree) (n : Nat) (site : Site) :
    walk n .plain (.tree (t.withProperties ps kinds)) site =
      walk n .plain (.tree (t.withProperties ps kinds')) site := by
  cases n with
  | zero => rfl
  | succ n =>
    have hcode (kinds : List String) : compileAs (walk n) (t.withProperties ps kinds) .plain =
        Expression.object (walk n) (t.withProperties ps kinds) := by
      rw [compileAs, compileForm, Tree.withProperties, ht]
    have hrole (kinds : List String) : roleOf (t.withProperties ps kinds) = .other := by
      rw [roleOf, Tree.withProperties, ht]
    have hobject : Expression.object (walk n) (t.withProperties ps kinds) =
        Expression.object (walk n) (t.withProperties ps kinds') :=
      funext fun site => Expression.object_withProperties (walk n) site h
    rw [walk, step, step, hcode, hcode, hrole, hrole, hobject]
    rfl

/-- The kinds of the properties of an object are read off whatever comes of its compilation. If they
are read rightly where all are plain values, they are read rightly only there. -/
theorem kinds_read_iff (ht : t.type = .objectExpression) (hlength : kinds.length = ps.length)
    {n : Nat} {site : Site} {s : GenState} {read : Except Failure Unit × GenState → List String}
    (hplain : read ((walk n .plain
      (.tree (t.withProperties ps (ps.map fun _ => "init"))) site).run.run s) = ps.map fun _ =>
      "init") :
    read ((walk n .plain (.tree (t.withProperties ps kinds)) site).run.run s) = kinds ↔
      ∀ kind ∈ kinds, kind = "init" := by
  have hsame : kinds.length = (ps.map fun _ => "init").length := by rw [hlength, List.length_map]
  rw [walk_withProperties ht hsame ps n site, hplain, List.map_const', eq_comm,
    List.eq_replicate_iff, and_iff_right hlength]

def emptyObject : Tree := { type := .objectExpression, span := {}, fields := [] }

/-- The property `x` with a function as its value. -/
def functionProperty : Tree :=
  { type := .property, span := {}, fields :=
    [("key", .name "x"), ("value", .node .functionExpression
      [("id", .null), ("params", .list []), ("body", .block [])])] }

def plainKinds (outcome : Except Failure Unit × GenState) : List String :=
  (outcome.2.trace.toList.filter fun i => match i with
    | .hook _ _ (.plain "before-property") _ => true
    | _ => false).map fun _ => "init"

theorem getter_misread :
    plainKinds ((walk 4 .plain (.tree (emptyObject.withProperties [functionProperty] ["get"]))
      { frame := 0 }).run.run insideProgram) ≠ ["get"] := fun h =>
  absurd ((kinds_read_iff rfl rfl (by decide +kernel)).1 h "get" (List.mem_singleton.2 rfl))
    (by decide)

/-- Nobody can tell a getter from a plain value. -/
theorem getter_unreadable : ¬ ∃ read : Except Failure Unit × GenState → List String,
    ∀ kind ∈ ["get", "init"],
      read ((walk 4 .plain (.tree (emptyObject.withProperties [functionProperty] [kind]))
        { frame := 0 }).run.run insideProgram) = [kind] := by
  rintro ⟨read, hread⟩
  have hlength : ["get"].length = ["init"].length := rfl
  have hget := hread "get" (by simp)
  rw [walk_withProperties rfl hlength, hread "init" (by simp)] at hget
  exact absurd hget (by decide)

end ObjectiveJ
