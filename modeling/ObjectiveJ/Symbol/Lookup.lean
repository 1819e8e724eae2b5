import ObjectiveJ.Symbol.Table

/-!
# Looking up methods and variables

A class has the instance variables and methods of its superclasses, and a protocol those of the
protocols that it incorporates. Superclasses are older than their subclasses, so the way up ends.
Protocols may incorporate each other in a circle, and each name is visited once.

The definitions that are searched make a `Trail`. Where a class has a protocol for its superclass,
or a protocol incorporates a class, the trail is broken: what comes before is searched, and a search
that gets to the end fails.
-/

namespace ObjectiveJ

/-- What a search comes to: something is found or not, or the search fails. -/
abbrev Search (α : Type) := Option (Option α)

namespace Search

variable {α β : Type}

def among (f : β → Search α) : List β → Search α
  | [] => some none
  | b :: rest => match f b with
    | some none => among f rest
    | found => found

end Search

structure Trail where
  members : List Definition
  isWhole : Bool

namespace Trail

def search {α : Type} (t : Trail) (f : Definition → Search α) : Search α :=
  match Search.among f t.members with
  | some none => if t.isWhole then some none else none
  | found => found

def cons (d : Definition) (t : Trail) : Trail := { t with members := d :: t.members }

end Trail

namespace Symbols

variable (s : Symbols)

/-- A definition and its superclasses, the definition itself first. A protocol has none. -/
def superclasses (s : Symbols) (id : DefinitionId) : List Definition :=
  match s.definition? id with
  | none => []
  | some d =>
    d :: match d.class?.bind (·.superclass) with
      | none => []
      | some up => if up < id then superclasses s up else []
termination_by id

/-- The classes in which a method is looked for: a category, then the class it extends and the
superclasses of that. -/
def lineage (id : DefinitionId) : Trail :=
  let members := match s.definition? id with
    | none => []
    | some d => match d.class?.bind (·.base) with
      | none => s.superclasses id
      | some base => d :: s.superclasses base
  { members, isWhole := members.all (·.class?.isSome) }

def findIvar (id : DefinitionId) (name : Key) : Search (Ivar × ClassDef) :=
  Search.among
    (fun d => d.class?.map fun c => (c.ivars.get? name).map (·, c)) (s.superclasses id)

def nameKey (d : Definition) : Key := d.name.key?.getD .null

/-- How many definitions of the store have names that are not among those seen. -/
def unseen (seen : List Key) : Nat :=
  s.store.toList.countP fun d => !seen.contains (nameKey d)

theorem unseen_cons_lt {s : Symbols} {seen : List Key} {id : DefinitionId} {d : Definition}
    (h : s.definition? id = some d) (hd : nameKey d ∉ seen) :
    s.unseen (nameKey d :: seen) < s.unseen seen := by
  have hmem : d ∈ s.store.toList := by
    obtain ⟨hlt, rfl⟩ := Array.getElem?_eq_some_iff.1 h
    exact Array.getElem_mem_toList hlt
  have key : ∀ l : List Definition, d ∈ l →
      l.countP (fun e => !(nameKey d :: seen).contains (nameKey e)) <
        l.countP (fun e => !seen.contains (nameKey e)) := by
    intro l
    induction l with
    | nil => intro h; simp at h
    | cons e rest ih =>
      intro he
      have hle : rest.countP (fun e => !(nameKey d :: seen).contains (nameKey e)) ≤
          rest.countP (fun e => !seen.contains (nameKey e)) :=
        List.countP_mono_left fun x _ hx => by
          simp at hx ⊢
          exact hx.2
      by_cases heq : e = d
      · subst heq
        simp [hd]
        have := hle
        simp at this
        omega
      · have := ih ((List.mem_cons.1 he).resolve_left (Ne.symm heq))
        simp only [List.countP_cons]
        have hstep : (if (!(nameKey d :: seen).contains (nameKey e)) = true then 1 else 0) ≤
            (if (!seen.contains (nameKey e)) = true then 1 else 0) := by
          by_cases h1 : nameKey e ∈ seen <;> by_cases h2 : nameKey e = nameKey d <;> simp [h1, h2]
        omega
  exact key _ hmem

/-- The protocols that are reached from a queue of them, nearest first, each name once. The trail
breaks before a name that has no key and after a class. -/
def reachable (s : Symbols) (seen : List Key) (queue : List DefinitionId) : Trail :=
  match queue with
  | [] => ⟨[], true⟩
  | id :: rest =>
    match h : s.definition? id with
    | none => reachable s seen rest
    | some d =>
      if d.name.key?.isNone then ⟨[], false⟩
      else if hd : nameKey d ∈ seen then reachable s seen rest
      else match d.protocol? with
        | none => ⟨[d], false⟩
        | some p =>
          have := unseen_cons_lt h hd
          (reachable s (nameKey d :: seen) (rest ++ p.incorporated)).cons d
termination_by (s.unseen seen, queue.length)

def incorporated (id : ProtocolId) : Trail := s.reachable [] [id]

def protocolMethod (id : ProtocolId) (selector : Key) (kind : MethodKind) :
    Search Method :=
  (s.incorporated id).search fun d => some (d.ownMethod selector kind)

def inheritedMethod (id : ClassId) (selector : Key) (kind : MethodKind) :
    Search Method :=
  (s.lineage id).search fun d => some (d.ownMethod selector kind)

def anyMethod (id : DefinitionId) (selector : Key) (kind : MethodKind) :
    Search Method :=
  if (s.class? id).isSome then s.inheritedMethod id selector kind
  else s.protocolMethod id selector kind

/-- A method of a class, of one of its superclasses or of their protocols: the protocols of each
class are searched after its own methods. -/
def methodWithProtocols (id : ClassId) (selector : Key) (kind : MethodKind) :
    Search Method :=
  (s.lineage id).search fun d =>
    match d.ownMethod selector kind with
    | some m => some (some m)
    | none => d.class?.bind fun c =>
      Search.among (s.anyMethod · selector kind) c.protocols.values

def allMethods? (id : ClassId) (kind : MethodKind) : Option (Table Key Method) := do
  let classes ← (s.lineage id).members.mapM Definition.class?
  return classes.reverse.foldl (fun t c => t.merge (c.methods kind)) {}

structure Requirement where
  method : Method
  kind : MethodKind
  protocol : ProtocolDef

def requirements? (id : ProtocolId) : Option (List Requirement) := do
  let trail := s.incorporated id
  if !trail.isWhole then none
  return (← trail.members.mapM Definition.protocol?).flatMap fun p =>
    [MethodKind.ofInstance, .ofClass].flatMap fun kind =>
      (p.required kind).values.map fun method => { method, kind, protocol := p }

/-- Each requirement once: one of a protocol of the same name for the same selector and kind is the
same. -/
def distinct (seen : List (Key × Key × MethodKind)) : List Requirement → List Requirement
  | [] => []
  | r :: rest =>
    let key := (nameKey (.protocolDef r.protocol), r.method.key, r.kind)
    if key ∈ seen then distinct seen rest else r :: distinct (key :: seen) rest

def missing? (id : ClassId) (protocols : List DefinitionId) :
    Option (List Requirement) := do
  let instanceMethods ← s.allMethods? id .ofInstance
  let classMethods ← s.allMethods? id .ofClass
  let required ← protocols.mapM s.requirements?
  return (distinct [] required.flatten).filter fun r =>
    match r.kind with
    | .ofInstance => !instanceMethods.contains r.method.key
    | .ofClass => !classMethods.contains r.method.key

end Symbols

end ObjectiveJ
