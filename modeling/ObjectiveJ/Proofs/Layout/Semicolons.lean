import ObjectiveJ.Proofs.Balance.Walk
import ObjectiveJ.Proofs.Format.Groups

/-!
# Semicolons after `var` statements

What the bundled formats have after a `var` statement depends on the parent that the statement
stands in: nothing in a `for` loop, and else a semicolon. The head of a loop and a body without
braces have the same parent, so nothing is written after a `var` statement that is the body of a
loop either.
-/

namespace ObjectiveJ

open Gen

namespace Ancestry

variable {a b : Ancestry} {type : String}

theorem Grows.parentType (h : a.Grows b) (index : Nat) :
    b.parentType type index = a.parentType type index := by
  have htypes {ps qs : List Parent} (h : List.Forall₂ Parent.Grows ps qs) :
      qs.map (·.self.type) = ps.map (·.self.type) := by
    induction h with
    | nil => rfl
    | cons hp _ ih => rw [List.map_cons, List.map_cons, hp.self, ih]
  rw [Ancestry.parentType, Ancestry.parentType, ← List.getElem?_map, ← List.getElem?_map, htypes h]

theorem parentType_push (h : isParent type = true) (role : StatementRole) :
    (a.push type role).parentType type 0 = a.parents.head?.map (·.self.type) := by
  obtain ⟨_, _ | ⟨p, rest⟩, _⟩ := a
  · simp [push, parentType, h]
  · simp [push, parentType, record, h]

end Ancestry

variable {f : Format} {parent : String} {a : Ancestry}

namespace Format

/-- What a `var` statement has after it, by its parent. -/
def afterVars : List (String × Json) := [("for", .str ""), ("for in", .str ""), ("*", .str ";")]

theorem own?_afterVars :
    (bundled "cappuccino").own? "var" "after" = some (.obj [("$parent", .obj afterVars)]) := by
  have hagrees : ((bundled "cappuccino").own? "var" "after").any
      (Json.agrees · (.obj [("$parent", .obj afterVars)])) = true := by decide +kernel
  cases hown : (bundled "cappuccino").own? "var" "after" with
  | none =>
    rw [hown] at hagrees
    cases hagrees
  | some value =>
    rw [hown] at hagrees
    rw [Json.eq_of_agrees hagrees]

theorem resolve_afterVars (h : a.parentType "VariableDeclaration" 0 = some parent)
    (hparent : Ancestry.isParent parent = true) :
    (bundled "cappuccino").resolve (some a) "VariableDeclaration"
      [("$parent", .obj afterVars)] none 0 =
      .text (if parent = "ForStatement" ∨ parent = "ForInStatement" then "" else ";") := by
  have hbranch : branch? (some a) "VariableDeclaration" [("$parent", .obj afterVars)] 0 =
      some ⟨.obj afterVars, a.parentType "VariableDeclaration" 0, 1⟩ := rfl
  -- no group has an entry in the choice
  have hall : (Ancestry.parentTypes.all fun parent => (nodeType? parent).any fun item =>
      ((given? afterVars item).or (((bundled "cappuccino").groups.get? (.text item)).bind
        (given? afterVars))).map Json.str? ==
          if parent = "ForStatement" ∨ parent = "ForInStatement" then some (some "") else none) =
            true := by
    decide +kernel
  have hentry := List.all_eq_true.1 hall parent (List.contains_iff_mem.1 hparent)
  rw [resolve_eq]
  cases hitem : nodeType? parent with
  | none =>
    rw [hitem] at hentry
    cases hentry
  | some item =>
    rw [hitem, Option.any_some, beq_iff_eq] at hentry
    by_cases hloop : parent = "ForStatement" ∨ parent = "ForInStatement"
    · rw [if_pos hloop, Option.map_eq_some_iff] at hentry
      obtain ⟨value, hentry, hvalue⟩ := hentry
      cases value with
      | str text =>
        cases hvalue
        simp only [step, hbranch, h, Option.elim_some, hitem, hentry, hloop, if_true]
      | _ => cases hvalue
    · rw [if_neg hloop, Option.map_eq_none_iff] at hentry
      simp only [step, hbranch, h, Option.elim_some, hitem, hentry, hloop, if_false]
      exact resolve_of_resolveWithin (n := 1) rfl

theorem written_vars (hf : f.IsBundled) (h : a.parentType "VariableDeclaration" 0 = some parent)
    (hparent : Ancestry.isParent parent = true) :
    f.written (some a) "VariableDeclaration" "after" =
      if parent = "ForStatement" ∨ parent = "ForInStatement" then [] else [';'] := by
  have hsame : f.valueFor (some a) "VariableDeclaration" "after" =
      (bundled "cappuccino").valueFor (some a) "VariableDeclaration" "after" := by
    rcases hf with rfl | rfl
    · rfl
    · exact (valueFor_after ..).symm
  have hown := own?_afterVars
  unfold own? at hown
  have hvalue : (bundled "cappuccino").valueFor (some a) "VariableDeclaration" "after" =
      .str (if parent = "ForStatement" ∨ parent = "ForInStatement" then "" else ";") := by
    have hitem : nodeType? (if "VariableDeclaration".isEmpty then "*" else "VariableDeclaration") =
      some "var" := by decide
    simp only [valueFor, hitem, hown, Option.bind_some, outcome?, resolve_afterVars h hparent]
  rw [written, hsame, hvalue]
  split <;> rfl

end Format

variable {n : Nat} {t : Tree} {site : Site} {s u : GenState}

/-- A `var` statement is compiled in a state whose innermost parent is of some type. What is written
for it ends with the hook after it, where both bundled formats have a semicolon, unless the parent
is a `for` loop: then they have nothing, whether the statement is in the head of the loop or is its
body. -/
theorem vars_terminated (hf : f.IsBundled) (ht : t.type = .variableDeclaration)
    (hinner : s.ancestry.parents.head?.map (·.self.type) = some parent)
    (hparent : Ancestry.isParent parent = true)
    (h : (walk n .plain (.tree t) site).run.run s = (.ok (), u)) :
    ∃ before inside after, u.shapes = s.shapes ++
        .hook site.buffer "VariableDeclaration" (.plain "before") before ::
          (inside ++ [.hook site.buffer "VariableDeclaration" (.plain "after") after]) ∧
      f.written (some after) "VariableDeclaration" "after" =
        if parent = "ForStatement" ∨ parent = "ForInStatement" then [] else [';'] := by
  cases n with
  | zero => cases h
  | succ n =>
    have htype : layoutType t .plain = "VariableDeclaration" := by
      rw [layoutType, ht]
      rfl
    have hcode := restoreLaw_runs.scopes.code n (t := t) (fun _ => trivial) .plain
      { site with type := "VariableDeclaration" }
    rw [walk, step, htype] at h
    obtain ⟨before, inside, after, hshapes, hgrows⟩ := wp.ok (enclose_hooks hcode) h
    refine ⟨before, inside, after, hshapes, Format.written_vars hf ?_ hparent⟩
    calc after.parentType "VariableDeclaration" 0
      _ = (s.ancestry.push "VariableDeclaration" (roleOf t)).parentType "VariableDeclaration" 0 :=
        hgrows.parentType 0
      _ = s.ancestry.parents.head?.map (·.self.type) := Ancestry.parentType_push (by decide) _
      _ = some parent := hinner

def plainVars : Tree :=
  { type := .variableDeclaration, span := {}, fields :=
    [("kind", .str "var"), ("declarations", .list [.declarator "x" .null])] }

/-- A state in which the statements of a block are compiled. -/
def insideBlock : GenState :=
  { insideProgram with ancestry := insideProgram.ancestry.push "BlockStatement" .other }

theorem plainVars_terminated : ∃ u after,
    (walk 3 .plain (.tree plainVars) { frame := 0 }).run.run insideBlock = (.ok (), u) ∧
      u.shapes.getLast? = some (.hook 0 "VariableDeclaration" (.plain "after") after) ∧
      (Format.bundled "cappuccino").written (some after) "VariableDeclaration" "after" = [';'] := by
  have hsome : ((walk 3 .plain (.tree plainVars) { frame := 0 }).run.run
      insideBlock).1.toOption.isSome := by decide +kernel
  have hinner : insideBlock.ancestry.parents.head?.map (·.self.type) =
      some "BlockStatement" := by decide +kernel
  rcases hrun : (walk 3 .plain (.tree plainVars) { frame := 0 }).run.run insideBlock
    with ⟨e | ⟨⟩, u⟩
  · rw [hrun] at hsome
    cases hsome
  · obtain ⟨before, inside, after, hshapes, hwritten⟩ :=
      vars_terminated (.inl rfl) rfl hinner (by decide) hrun
    refine ⟨u, after, rfl, ?_, hwritten⟩
    rw [hshapes, ← List.cons_append, ← List.append_assoc]
    exact List.getLast?_concat

/-- The unit of `for (;;) var x;`. -/
def loopOverVars : CompileUnit where
  program :=
    let loop : Tree := { type := .forStatement, span := {}, fields :=
      [("init", .null), ("test", .null), ("update", .null), ("body", .tree plainVars)] }
    .tree { type := .program, span := {}, fields := [("body", .list [.tree loop])] }

theorem compile_loopOverVars :
    ((Compiler.unmapped.withFormat (.bundled "cappuccino")).compile {} loopOverVars).1.toOption.map
      CompileResult.code = some "(function()\n\x7b\n    for (; ; )var x\n\x7d)();\n" := by
  decide +kernel

end ObjectiveJ
