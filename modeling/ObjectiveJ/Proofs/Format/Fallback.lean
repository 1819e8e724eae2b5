import ObjectiveJ.Proofs.Format
import ObjectiveJ.Proofs.Format.Groups

/-!
# Fallbacks of a choice

A choice goes from table to table, as the neighbours of the node say, until it comes to a text or to
a table whose branches lead nowhere. That is its *descent*, in which the `*` entries have no part.
If it ends without a text, the innermost `*` entry on the way is taken, and a choice that this entry
may be has no other fallback. Only then the value that a format has for all types counts
(`valueFor_innermost`).
-/

namespace ObjectiveJ

/-! ### Ancestries -/

namespace Ancestry

inductive Move where
  | enter (type : String) (role : StatementRole)
  | leave (type : String)

/-- The ancestry after nodes have been entered and left, in whatever order. -/
def ofMoves (moves : List Move) : Ancestry :=
  moves.foldl (fun a m => match m with
    | .enter type role => a.push type role
    | .leave type => a.pop type) {}

/-- All statements and parents that are kept. -/
def kept (a : Ancestry) : List Statement :=
  a.parents.flatMap (fun p => p.self :: p.statements) ++ a.outside

/-- Whatever is kept has a type of format nodes. -/
def Typed (a : Ancestry) : Prop := ∀ x ∈ a.kept, (Format.nodeType? x.type).isSome = true

variable {a : Ancestry} {type t : String}

theorem Typed.record {s : Statement} (h : a.Typed) (hs : (Format.nodeType? s.type).isSome = true) :
    (a.record s).Typed := by
  intro x hx
  have hkept : x = s ∨ x ∈ a.kept := by
    obtain ⟨count, parents, outside⟩ := a
    cases parents with
    | nil => simpa [Ancestry.record, kept] using hx
    | cons p rest =>
      simp only [Ancestry.record, kept, List.flatMap_cons, List.cons_append, List.mem_cons] at hx ⊢
      rwa [or_left_comm]
  exact hkept.elim (fun hx => hx ▸ hs) (h x)

theorem Typed.push (h : a.Typed) (type : String) (role : StatementRole) :
    (a.push type role).Typed := by
  have hlists : ∀ type ∈ parentTypes ++ statementTypes, (Format.nodeType? type).isSome = true := by
    decide +kernel
  have hrecord (htype : type ∈ parentTypes ++ statementTypes) :
      (({ a with count := a.count + 1 } : Ancestry).record ⟨a.count, type, role⟩).Typed :=
    Typed.record h (hlists type htype)
  unfold Ancestry.push
  dsimp only
  split
  · rename_i hparent
    have hmem := List.mem_append_left statementTypes (List.contains_iff_mem.1 hparent)
    intro x hx
    rw [kept, List.flatMap_cons, List.append_assoc, List.mem_append] at hx
    rcases hx with hx | hx
    · rw [List.mem_singleton.1 hx]
      exact hlists type hmem
    · split at hx
      · exact h x hx
      · exact hrecord hmem x hx
  · split
    · rename_i hstatement
      exact hrecord (List.mem_append_right _ (List.contains_iff_mem.1 hstatement))
    · exact h

theorem Typed.pop (h : a.Typed) (type : String) : (a.pop type).Typed := by
  obtain ⟨count, parents, outside⟩ := a
  unfold Ancestry.pop
  split
  · cases parents with
    | nil => exact h
    | cons p rest =>
      refine fun x hx => h x ?_
      rw [kept, List.flatMap_cons, List.append_assoc]
      cases rest with
      | nil => exact List.mem_append_left _ (.tail _ hx)
      | cons q rest => exact List.mem_append_right _ hx
  · exact h

theorem typed_ofMoves (moves : List Move) : (ofMoves moves).Typed := by
  have hfold (a : Ancestry) (ha : a.Typed) : Typed (moves.foldl (fun a m => match m with
      | .enter type role => a.push type role
      | .leave type => a.pop type) a) := by
    induction moves generalizing a with
    | nil => exact ha
    | cons m rest ih =>
      cases m with
      | enter type role => exact ih _ (ha.push type role)
      | leave type => exact ih _ (ha.pop type)
  exact hfold {} fun _ h => nomatch h

theorem Typed.parentType {i : Nat} (h : a.Typed) (ht : a.parentType type i = some t) :
    (Format.nodeType? t).isSome = true := by
  obtain ⟨p, hp, rfl⟩ := Option.map_eq_some_iff.1 ht
  exact h _ (List.mem_append_left _ (List.mem_flatMap.2 ⟨p, List.mem_of_getElem? hp, .head _⟩))

theorem Typed.previousType (h : a.Typed) (ht : a.previousType type = some t) :
    (Format.nodeType? t).isSome = true := by
  have hinside {p : Parent} (hp : p ∈ a.parents) {x : Statement} (hx : x ∈ p.statements) :=
    h x (List.mem_append_left _ (List.mem_flatMap.2 ⟨p, hp, List.mem_cons_of_mem _ hx⟩))
  have hstatements {x : Statement} (hx : x ∈ a.statements) :
      (Format.nodeType? x.type).isSome = true := by
    unfold Ancestry.statements at hx
    split at hx
    · exact h x (List.mem_append_right _ hx)
    · rename_i hparents
      exact hinside (hparents ▸ (.head _)) hx
  unfold Ancestry.previousType at ht
  split at ht
  · obtain ⟨x, hx, rfl⟩ := Option.map_eq_some_iff.1 ht
    obtain ⟨p, hp, hx⟩ := Option.bind_eq_some_iff.1 hx
    exact hinside (List.mem_of_getElem? hp) (List.mem_of_getElem? hx)
  · split at ht
    · obtain ⟨x, hx, rfl⟩ := Option.map_eq_some_iff.1 ht
      exact hstatements (List.mem_of_getElem? hx)
    · obtain ⟨x, hx, rfl⟩ := Option.map_eq_some_iff.1 ht
      exact hstatements (List.mem_of_getElem? hx)

end Ancestry

/-! ### Descents -/

namespace Format

/-- Where the branches of a table lead. -/
inductive Turn where
  | text (s : String)
  | nothing
  | table (next : List (String × Json))
  | nowhere

/-- Where the branches of a table lead, and how many parents have been looked at then. -/
def turn (f : Format) (around : Option Ancestry) (type : String) (table : List (String × Json))
    (parents : Nat) : Turn × Nat :=
  match branch? around type table parents with
  | none => (.nowhere, parents)
  | some { value := .str s, parents, .. } => (.text s, parents)
  | some { value := .obj branch, neighbor, parents } =>
    match neighbor.elim (some "null") nodeType? with
    | none => (.nothing, parents)
    | some item =>
      match (given? branch item).or ((f.groups.get? (.text item)).bind (given? branch)) with
      | some (.str s) => (.text s, parents)
      | some (.obj next) => (.table next, parents)
      | _ => (.table branch, parents)
  | some { parents, .. } => (.nowhere, parents)

/-- The tables that a choice goes through, and the text that it comes to, if it comes to one. -/
inductive Descends (f : Format) (around : Option Ancestry) (type : String) :
    List (String × Json) → Nat → List (List (String × Json)) → Option String → Nat → Prop
  | text {table p s q} : f.turn around type table p = (.text s, q) →
    Descends f around type table p [table] (some s) q
  | nowhere {table p q} : f.turn around type table p = (.nowhere, q) →
    Descends f around type table p [table] none q
  | into {table p next q path found r} : f.turn around type table p = (.table next, q) →
    Descends f around type next q path found r →
    Descends f around type table p (table :: path) found r

/-- The `*` entry of the last table that has one. -/
def innermost? (path : List (List (String × Json))) : Option Json :=
  path.reverse.findSome? (·.lookup "*")

/-- What a `*` entry comes to, which has no other fallback. -/
def starChoice (f : Format) (around : Option Ancestry) (type : String) (parents : Nat) :
    Option Json → Choice
  | some (.str s) => .text s
  | some (.obj table) => f.resolve around type table none parents
  | _ => .noValue

def globalValue (f : Format) (around : Option Ancestry) (type key : String) : Json :=
  match f.global key with
  | .obj table =>
    match f.resolve around type table none 0 with
    | .text s => .str s
    | _ => .null
  | value => value

theorem step_eq_turn (f : Format) (around : Option Ancestry) (type : String)
    (table : List (String × Json))
    (fallback : Option Json) (p : Nat) : f.step around type table fallback p =
      match f.turn around type table p with
      | (.text s, _) => .done (.text s)
      | (.nothing, _) => .done .nothing
      | (.table next, q) => .choose next ((table.lookup "*").or fallback) q
      | (.nowhere, q) => stepFallback q ((table.lookup "*").or fallback) := by
  unfold step turn
  rcases branch? around type table p with _ | ⟨value, neighbor, q⟩
  · rfl
  · cases value with
    | obj branch =>
      dsimp only
      rcases neighbor.elim (some "null") nodeType? with _ | item
      · rfl
      · dsimp only
        rcases (given? branch item).or
          ((f.groups.get? (.text item)).bind (given? branch)) with _ | entry
        · rfl
        · cases entry <;> rfl
    | _ => rfl

section

variable {f : Format} {around : Option Ancestry} {type : String} {p : Nat}
  (h : ∀ a ∈ around, a.Typed) (table : List (String × Json))

include h

theorem turn_ne_nothing (q : Nat) :
    f.turn around type table p ≠ (.nothing, q) := by
  intro hturn
  unfold turn at hturn
  split at hturn
  · cases hturn
  · cases hturn
  · rename_i branch neighbor parents hbranch
    split at hturn
    · rename_i hnone
      -- the neighbour is of the types that an ancestry keeps
      obtain ⟨t, rfl⟩ : ∃ t, neighbor = some t :=
        Option.ne_none_iff_exists'.1 (by rintro rfl; cases hnone)
      have hsome : (nodeType? t).isSome = true := by
        unfold branch? at hbranch
        split at hbranch
        · obtain ⟨a, ha, ht⟩ := Option.bind_eq_some_iff.1
            (Branch.mk.inj (Option.some.inj hbranch)).2.1
          exact (h a ha).previousType ht
        · split at hbranch
          · obtain ⟨a, ha, ht⟩ := Option.bind_eq_some_iff.1
              (Branch.mk.inj (Option.some.inj hbranch)).2.1
            exact (h a ha).parentType ht
          · cases hbranch
      rw [show nodeType? t = none from hnone] at hsome
      cases hsome
    · split at hturn <;> cases hturn
  · cases hturn

/-- A descent comes to its end, and decides about the choice with whatever fallback. -/
theorem exists_descends (p : Nat) : ∃ path found q,
    f.Descends around type table p path found q ∧
      ∀ fallback, f.resolve around type table fallback p =
      found.elim (f.starChoice around type q ((innermost? path).or fallback)) .text := by
  generalize hsize : sizeOf table = n
  induction n using Nat.strongRecOn generalizing table p with
  | ind n ih =>
    subst hsize
    have hcons (path) : innermost? (table :: path) = (innermost? path).or (table.lookup "*") := by
      simp [innermost?, List.findSome?_append]
    rcases hturn : f.turn around type table p with ⟨s | _ | next | _, q⟩
    · refine ⟨_, _, q, .text hturn, fun fallback => ?_⟩
      rw [resolve_eq, step_eq_turn, hturn]
      rfl
    · exact absurd hturn (turn_ne_nothing h table q)
    · have hstep := step_eq_turn f around type table none p
      rw [hturn] at hstep
      have hlt := step_size hstep
      have hpos := sizeOf_option_pos ((table.lookup "*").or none)
      simp only [Option.none.sizeOf_spec] at hlt
      obtain ⟨path, found, r, hpath, hresolve⟩ := ih _ (by omega) next q rfl
      refine ⟨_, found, r, .into hturn hpath, fun fallback => ?_⟩
      rw [resolve_eq, step_eq_turn, hturn]
      dsimp only
      rw [hresolve, hcons, Option.or_assoc]
    · refine ⟨_, _, q, .nowhere hturn, fun fallback => ?_⟩
      rw [resolve_eq, step_eq_turn, hturn, hcons]
      dsimp only
      change _ = f.starChoice around type q ((table.lookup "*").or fallback)
      rcases (table.lookup "*").or fallback with _ | value
      · rfl
      · cases value <;> rfl

theorem resolve_ne_nothing (fallback : Option Json) :
    f.resolve around type table fallback p ≠ .nothing := by
  fun_induction resolve f around type table fallback p with
  | case1 table fallback p c hstep =>
    rintro rfl
    rw [step_eq_turn] at hstep
    split at hstep
    · cases hstep
    · exact turn_ne_nothing h _ _ ‹_›
    · cases hstep
    · unfold stepFallback at hstep
      split at hstep <;> cases hstep
  | case2 table fallback p next fb q hstep ih => exact ih

end

theorem resolveWithin_of_size {f : Format} {around : Option Ancestry} {type : String}
    {table : List (String × Json)} {fallback : Option Json} {p n : Nat}
    (h : sizeOf table + sizeOf fallback < n) :
    f.resolveWithin around type n table fallback p =
      some (f.resolve around type table fallback p) := by
  induction n generalizing table fallback p with
  | zero => exact absurd h (Nat.not_lt_zero _)
  | succ n ih =>
    rw [resolveWithin, resolve_eq]
    cases hstep : f.step around type table fallback p with
    | done c => rfl
    | choose next fb q =>
      have hlt := step_size hstep
      exact ih (by omega)

/-- A choice is made within as many steps as it has parts. The value of a node is that of its type;
if this is a choice, the text at the end of its descent, or else what the innermost `*` entry on the
way comes to. Where there is none, the value for all types is taken. -/
theorem valueFor_innermost (f : Format) (moves : Option (List Ancestry.Move)) (type key : String) :
    let around := moves.map Ancestry.ofMoves
    (∀ table fallback parents,
      f.resolveWithin around type (sizeOf table + sizeOf fallback + 1) table fallback parents =
        some (f.resolve around type table fallback parents)) ∧
    match nodeType? (if type.isEmpty then "*" else type) with
    | none => f.valueFor around type key = .null
    | some item =>
      match (f.data.get? (.text item)).bind (·.get? key) with
      | none => f.valueFor around type key = f.globalValue around type key
      | some (.obj table) =>
        ∃ path found parents, f.Descends around type table 0 path found parents ∧
        f.valueFor around type key =
          match found.elim (f.starChoice around type parents (innermost? path)) .text with
          | .text s => .str s
          | _ => f.globalValue around type key
      | some value => f.valueFor around type key = value := by
  intro around
  have h : ∀ a ∈ around, a.Typed := by
    intro a ha
    obtain ⟨ms, -, rfl⟩ := Option.map_eq_some_iff.1 ha
    exact Ancestry.typed_ofMoves ms
  have hglobal : (f.outcome? around type (f.global key)).getD .null =
      f.globalValue around type key := by
    unfold globalValue
    cases f.global key with
    | obj table =>
      dsimp only [outcome?]
      cases f.resolve around type table none 0 <;> rfl
    | _ => rfl
  refine ⟨fun table fallback parents => resolveWithin_of_size (Nat.lt_succ_self _), ?_⟩
  unfold valueFor
  dsimp only
  rw [hglobal]
  rcases nodeType? (if type.isEmpty then "*" else type) with _ | item
  · rfl
  · dsimp only
    rcases (f.data.get? (.text item)).bind (·.get? key) with _ | value
    · rfl
    · cases value with
      | obj table =>
        obtain ⟨path, found, q, hpath, hresolve⟩ := @exists_descends f _ type h table 0
        have hresolve := hresolve none
        rw [Option.or_none] at hresolve
        refine ⟨path, found, q, hpath, ?_⟩
        rw [← hresolve]
        simp only [Option.bind_some, outcome?]
        rcases hfound : f.resolve around type table none 0 with s | _ | _
        · rfl
        · exact absurd hfound (resolve_ne_nothing h table none)
        · rfl
      | _ => rfl

end Format

end ObjectiveJ
