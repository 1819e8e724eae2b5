import ObjectiveJ.Proofs.Layout.Columns
import ObjectiveJ.Proofs.Temps.Walk

/-!
# The walk is balanced

A node that is compiled leaves everything as it was but for what it has written, declared and
reported (`node_balanced`). The type of the node, the buffer for its code and whether it stands in a
message are no state: they are handed down with the `Site`, so nothing is to be restored there. What
can be seen of them is that the hook after a node goes to the same buffer, under the same type, as
the hook before it.
-/

namespace ObjectiveJ

open Gen

variable {n : Nat} {t : Tree} {type : String} {manner : Manner} {role : StatementRole} {body : Walk}
  {site : Site} {s u : GenState}

theorem compileAs_kept (n : Nat) (t : Tree) (manner : Manner) (site : Site) (s : GenState)
    (hframe : site.frame < s.frames.store.size) :
    wp (compileAs (walk n) t manner site) (fun _ u => s.frames.Kept u.frames)
      (fun _ _ => True) s := by
  obtain ⟨hw, hb⟩ := visitsNodes_walk true n
  cases manner with
  | plain => exact (hw.form hb site s hframe).imp fun _ _ h => h.1
  | elseIf =>
    exact (hw.branch t site s hframe).imp fun _ _ h => h.1
  | body isLambda =>
    exact (hw.block_whole site site.frame s hframe hframe).imp fun _ _ h => h.1

theorem enclose_kept (h : ∀ s : GenState, site.frame < s.frames.store.size →
      wp (body { site with type }) (fun _ u => s.frames.Kept u.frames) (fun _ _ => True) s)
    (hframe : site.frame < s.frames.store.size) :
    wp (enclose type role body site) (fun _ u => s.frames.Kept u.frames) (fun _ _ => True) s := by
  refine wp_enclose fun t hframes _ _ => ?_
  refine (h t (hframes ▸ hframe)).imp fun _ u hu x hframes' _ _ => ?_
  exact hframes' ▸ (hframes ▸ hu : s.frames.Kept u.frames)

/-- The hooks of a node stand around what is written in it. At the second one the node is still
entered. -/
theorem enclose_hooks (h : Restores (body { site with type })) :
    wp (enclose type role body site) (fun _ u => ∃ before inside after, u.shapes = s.shapes ++
        .hook site.buffer type (.plain "before") before ::
          (inside ++ [.hook site.buffer type (.plain "after") after]) ∧
        (s.ancestry.push type role).Grows after)
      (fun _ _ => True) s := by
  rw [Gen.enclose, within]
  simp only [wp_bind, wp_modify, hook, hookOf, wp_get]
  refine (Restores.wp_emit _ _).mono (fun _ t ht => ?_) fun _ _ _ => trivial
  obtain ⟨hentered, _, hbefore⟩ := ht
  refine (h t).mono (fun _ u hu => ?_) fun _ _ _ => trivial
  obtain ⟨inside, hinside, _⟩ := hu.written
  refine (Restores.wp_emit _ _).mono (fun _ x hx => ?_) fun _ _ _ => trivial
  obtain ⟨_, _, hafter⟩ := hx
  have hgrows := Ancestry.Grows.trans (.of_parents (congrArg Ancestry.parents hentered)) hu.ancestry
  refine ⟨s.ancestry.push type role, inside, u.ancestry, ?_, hgrows⟩
  change x.shapes = _
  rw [hafter, hinside, hbefore]
  simp only [List.append_assoc, List.singleton_append]
  rfl

/-- A node is compiled under some type, in some manner. If that comes to an end, the parents in the
ancestry are what they were, with more statements at most. Every frame stands in the same assignment
as before and uses as many temps, and the most that it has used is not less. The code of the node is
written between two hooks for the same type and buffer. Laid out by a bundled format, the
indentation after the node is that before it. -/
theorem node_balanced (hframe : site.frame < s.frames.store.size)
    (h : (enclose type (roleOf t) (compileAs (walk n) t manner) site).run.run s = (.ok (), u)) :
    List.Forall₂ Parent.Grows s.ancestry.parents u.ancestry.parents ∧
    (∀ id f, s.frames.frame? id = some f → ∃ g, u.frames.frame? id = some g ∧
      g.context.assignment = f.context.assignment ∧ g.level = f.level ∧ f.maxLevel ≤ g.maxLevel) ∧
    (∃ before inside after, u.shapes = s.shapes ++
      .hook site.buffer type (.plain "before") before ::
        (inside ++ [.hook site.buffer type (.plain "after") after])) ∧
    ∀ c : Compiler, c.format.IsBundled → ∃ indenter, c.indenter? = some indenter ∧
      ∀ l, ({ format := c.format, indenter } : Layout).run s.trace.toList = .ok l →
        ∃ k, ({ format := c.format, indenter } : Layout).run u.trace.toList = .ok k ∧
          k.indenter = l.indenter := by
  have hrestores : Restores (enclose type (roleOf t) (compileAs (walk n) t manner) site) :=
    Restores.within type _ (restoreLaw_runs.scopes.hooked (f := site.frame)
      (restoreLaw_runs.scopes.code n (fun _ => trivial) manner { site with type }))
  have hrestored := wp.ok (hrestores s) h
  have hkept : s.frames.Kept u.frames :=
    wp.ok (enclose_kept (fun s => compileAs_kept n t manner { site with type } s) hframe) h
  refine ⟨hrestored.ancestry, fun id f hf => ?_, ?_, fun c hc => ?_⟩
  · obtain ⟨g, hg, hfg⟩ := hrestored.frames id f hf
    have hlevel : g.level = f.level := by
      have hlevels := hkept.level id
      simp only [Frames.level, hf, hg, Option.map_some, Option.getD_some] at hlevels
      exact hlevels
    exact ⟨g, hg, hfg.assignment, hlevel, hfg.maxLevel⟩
  · have hcode := restoreLaw_runs.scopes.code (t := t) n (fun _ => trivial) manner
      { site with type }
    obtain ⟨before, inside, after, hshapes, -⟩ := wp.ok (enclose_hooks hcode) h
    exact ⟨before, inside, after, hshapes⟩
  · obtain ⟨indenter, w, hindenter, hblank, _⟩ := Compiler.indenter?_of_bundled hc
    obtain ⟨is, his, hbalanced⟩ := hrestored.written
    exact ⟨indenter, hindenter, fun l hl => Layout.run_balanced hc.tidy hblank his hbalanced hl⟩

/-- The statement `if (ready) list = [first];`. -/
def assigningBranch : Tree :=
  let array : Value := .node .arrayExpression [("elements", .list [.name "first"])]
  { type := .ifStatement, span := {}, fields :=
    [("test", .name "ready"), ("consequent", .statement (.assign (.name "list") array)),
      ("alternate", .null)] }

/-- A state in which the statements of a program are compiled. -/
def insideProgram : GenState where
  settings := {}
  symbols := {}
  diagnostics := .ofSource none
  frames := ⟨#[{ kind := .global }]⟩
  ancestry := ({} : Ancestry).push "Program" .other

theorem assigningBranch_balanced : ∃ u,
    (enclose "IfStatement" (roleOf assigningBranch) (compileAs (walk 4) assigningBranch .plain)
      { frame := 0 }).run.run insideProgram = (.ok (), u) ∧
    List.Forall₂ Parent.Grows insideProgram.ancestry.parents u.ancestry.parents ∧
    ∀ c : Compiler, c.format.IsBundled → ∃ indenter, c.indenter? = some indenter ∧
      ∃ k, ({ format := c.format, indenter } : Layout).run u.trace.toList = .ok k ∧
        k.indenter = indenter := by
  have hsome : ((enclose "IfStatement" (roleOf assigningBranch)
      (compileAs (walk 4) assigningBranch .plain) { frame := 0 }).run.run
        insideProgram).1.toOption.isSome = true := by decide +kernel
  rcases hrun : (enclose "IfStatement" (roleOf assigningBranch)
      (compileAs (walk 4) assigningBranch .plain) { frame := 0 }).run.run insideProgram
    with ⟨e | ⟨⟩, u⟩
  · rw [hrun] at hsome
    cases hsome
  · obtain ⟨hparents, -, -, hindented⟩ := node_balanced (by decide) hrun
    refine ⟨u, rfl, hparents, fun c hc => ?_⟩
    obtain ⟨indenter, hindenter, hsame⟩ := hindented c hc
    exact ⟨indenter, hindenter, hsame _ rfl⟩

end ObjectiveJ
