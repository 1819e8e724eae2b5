import Mathlib.Algebra.BigOperators.Group.Finset.Piecewise
import ObjectiveJ.Proofs.Code.Declaration
import ObjectiveJ.Proofs.Code.Expression
import ObjectiveJ.Proofs.Code.Function
import ObjectiveJ.Proofs.Code.Statement

/-!
# What the walk writes

What a step writes between the hooks of a node is marked as the code of the node (`Fills.node`).
Each form writes the code of the parts that have code (`Puts.form`), so by induction on the height
the walk writes the code of a value: its brackets nest, and the nodes in it that count have their
code written once (`writes_walk`).
-/

namespace ObjectiveJ

open Gen Text

variable {height : Nat}

variable {A : Account} {o : Bool} {b : Nat} {n : Multiset Tree} {v : Value} {t : Tree}
  {walk : Walker} {site : Site} {s s' u : GenState}

/-! ### Nodes -/

theorem NodeType.name_not_mem_partTitles (type : NodeType) : type.name ∉ partTitles := by
  cases type <;> decide

theorem layoutType_not_mem_partTitles (t : Tree) (manner : Manner) :
    layoutType t manner ∉ partTitles := by
  cases manner with
  | plain => exact t.type.name_not_mem_partTitles
  | elseIf => simp [layoutType, partTitles]
  | body isLambda =>
    cases isLambda with
    | true => simp [layoutType, partTitles]
    | false => exact t.type.name_not_mem_partTitles

theorem Code.tally_node (t : Tree) (first : Instr) (inner : Code) :
    (Code.node t first inner .nil).tally A = A.share t + inner.tally A := by
  rw [Code.tally, Code.nodes, coe_filter_cons, Code.nodes, List.append_nil]
  rfl

theorem Code.chars_node (t : Tree) {first : Instr} (inner : Code) (hchars : first.chars = []) :
    (Code.node t first inner .nil).chars = inner.chars := by
  simp [Code.chars, Code.flatten, hchars]

/-- The code of a node starts with the hook before it, and what is written then is marked. -/
theorem Fills.node {first : Instr} {d : Nat → Code} (hb : b < s.buffers) (hheld : s.Held s')
    (hfirst : s'.contents = s.contents.append b [first]) (hopening : first.isOpening = true)
    (hchars : first.chars = []) (hd : Fills A b [] n s' u d)
    (hcode : ∀ is, u.contents b = s.contents b ++ is → t.IsCode is) :
    Fills A b [] (A.share t + n) s u fun r => if r = b then .node t first (d b) .nil else d r := by
  have hat : s'.contents b = s.contents b ++ [first] := by rw [hfirst, Contents.append_self]
  have helse (r : Nat) (hr : r ≠ b) : s'.contents r = s.contents r := by
    rw [hfirst, Contents.append_of_ne _ _ hr]
  have hbuffers : s'.buffers = s.buffers := hheld.buffers
  have hmethods : s'.methodList = s.methodList := by rw [GenState.methodList, hheld.methods]; rfl
  have hhere : u.contents b = s.contents b ++ first :: (d b).flatten := by
    rw [hd.contents b (hbuffers ▸ hb), hat, List.append_assoc, List.singleton_append]
  refine ⟨fun r hr => ?_, fun r => ?_, fun r hr hmethod => ?_, fun hclear => ⟨?_, fun r hr => ?_⟩,
    fun honce herrors => ?_⟩
  · split
    · rename_i hrb
      rw [hrb, hhere, Code.flatten, Code.flatten, List.append_nil]
    · rename_i hrb
      rw [hd.contents r (hbuffers ▸ hr), helse r hrb]
  · split
    · exact ⟨hopening, hcode _ hhere, hd.faithful b, trivial⟩
    · exact hd.faithful r
  · rw [if_neg hr]
    exact hd.elsewhere r hr (hmethods ▸ hmethod)
  · rw [if_pos rfl, Code.chars_node t (d b) hchars]
    exact (hd.brackets hclear).1
  · rw [if_neg hr]
    exact (hd.brackets hclear).2 r hr
  · have hshare (r : Nat) : Code.tally A (if r = b then .node t first (d b) .nil else d r) =
        (if r = b then A.share t else 0) + (d r).tally A := by
      split
      · rename_i hrb
        rw [hrb, Code.tally_node]
      · rw [zero_add]
    have hn : ∑ r ∈ Finset.range s.buffers, (d r).tally A = n := by
      rw [← hbuffers]
      exact hd.tally honce herrors
    rw [Finset.sum_congr rfl fun r _ => hshare r, Finset.sum_add_distrib, Finset.sum_ite_eq',
      if_pos (Finset.mem_range.2 hb), hn]

theorem wp_enter {manner : Manner} {Q : Unit → GenState → Prop} (hs : s.Ready A)
    (hp : s.At (site.spot o))
    (h : ∀ s' first, s'.Ready A → s.Held s' → s'.contents = s.contents.append site.buffer [first] →
      first.isOpening = true → first.chars = [] → wp (do
        compileAs (ObjectiveJ.walk height) t manner { site with type := layoutType t manner }
        Gen.hook site.buffer (layoutType t manner) "after"
        modify fun s => { s with ancestry := s.ancestry.pop (layoutType t manner) }) Q
          (fun _ _ => True) s') :
    wp (ObjectiveJ.walk (height + 1) manner (.tree t) site) Q (fun _ _ => True) s := by
  let type := layoutType t manner
  let first : Instr := .hook site.buffer type (.plain "before") (s.ancestry.push type (roleOf t))
  have hopening : first.isOpening = true := by
    simp [first, type, Instr.isOpening, layoutType_not_mem_partTitles]
  obtain ⟨hentered, hheld, _⟩ := (Rests.ancestry (A := A) (·.push type (roleOf t))).ready hs
  change wp (Gen.enclose type (roleOf t) (compileAs (ObjectiveJ.walk height) t manner) site) _ _ s
  simp only [Gen.enclose, Gen.within, bind_assoc]
  refine (wp_bind ..).2 ((wp_modify _).2 ((wp_bind ..).2 ?_))
  refine (wp_emitted first _).imp fun _ s' hs' => ?_
  subst hs'
  exact h _ first (hentered.emitted hp.buffer hp.used rfl) (hheld.trans (.push _ first))
    (GenState.contents_push _ first) hopening rfl

/-- A node is compiled: its parts count, and so does the node itself. -/
theorem Puts.node {manner : Manner} (h : ∀ type, Puts A (Site.spot { site with type } o)
      (compileAs (ObjectiveJ.walk height) t manner { site with type }) [] n) :
    Puts A (site.spot o) (ObjectiveJ.walk (height + 1) manner (.tree t) site) []
      (A.share t + n) := by
  intro s hs hp
  have hafter (type : String) : Puts A (site.spot o) (do
      compileAs (ObjectiveJ.walk height) t manner { site with type }
      Gen.hook site.buffer type "after"
      modify fun s => { s with ancestry := s.ancestry.pop type }) [] n :=
    .start <| .seq (h type) <| .seq (.hook type (by decide)) <|
      .last (Rests.ancestry _).puts rfl (by simp)
  suffices hwp : wp (ObjectiveJ.walk (height + 1) manner (.tree t) site)
      (fun _ u => ∃ first s', s.Held s' ∧ s'.contents = s.contents.append site.buffer [first] ∧
        first.isOpening = true ∧ first.chars = [] ∧ u.Ready A ∧ Adds A site.buffer [] n s' u)
          (fun _ _ => True) s by
    refine hwp.run.imp fun _ u hu => ?_
    obtain ⟨⟨first, s', hheld, hfirst, hopening, hchars, hready, hkept, d, hd⟩, hrun⟩ := hu
    exact ⟨hready, hheld.kept.trans hkept, _,
      hd.node hp.buffer hheld hfirst hopening hchars fun _ his =>
      ⟨height + 1, manner, site, s, u, hrun, his⟩⟩
  refine wp_enter hs hp fun s' first hs' hheld hfirst hopening hchars => ?_
  exact (hafter _ s' hs' (hp.kept hheld.kept)).imp fun _ u hu => ⟨first, s', hheld, hfirst,
    hopening, hchars, hu⟩

/-! ### Forms -/

section Forms

attribute [local simp] NodeType.codeParts NodeType.codeFields Tree.tallyOfMethod

theorem Puts.congr {p : Spot} {m : Gen Unit} {w : List Char} {n n' : Multiset Tree}
    (h : Puts A p m w n) (hn : n = n') : Puts A p m w n' := hn ▸ h

theorem Puts.form (hw : Writes A walk) (ht : Fits A (.tree t)) :
    Puts A (site.spot o) (compileForm walk t site) []
      ((t.type.codeParts o).map fun p => t.tallyOf A p.2 p.1).sum := by
  unfold compileForm
  cases htype : t.type with
  | program => exact (program hw ht).congr (by simp)
  | blockStatement => exact (block hw ht false).congr (by simp)
  | expressionStatement => exact (expression hw ht).congr (by simp)
  | emptyStatement => exact empty
  | debuggerStatement => exact debugger
  | withStatement => exact (control hw ht (.of_residue rfl)).congr (by simp)
  | returnStatement => exact (returning hw ht).congr (by simp)
  | labeledStatement => exact (labeled hw ht).congr (by simp)
  | breakStatement => exact jump (.of_residue rfl) ht
  | continueStatement => exact jump (.of_residue rfl) ht
  | ifStatement => exact (branch hw ht).congr (by simp [add_assoc])
  | switchStatement => exact (switch hw ht htype).congr (by simp)
  | throwStatement => exact (throwing hw ht).congr (by simp)
  | tryStatement => exact (trying hw ht htype).congr (by simp [add_assoc])
  | whileStatement => exact (control hw ht (.of_residue rfl)).congr (by simp)
  | doWhileStatement => exact (doWhile hw ht).congr (by simp [add_comm])
  | forStatement => exact (forLoop hw ht).congr (by simp [add_assoc])
  | forInStatement => exact (forIn hw ht).congr (by simp [add_assoc])
  | variableDeclaration => exact (vars hw ht htype).congr (by simp)
  | importStatement => exact importing ht
  | classStatement => exact announce (.of_residue rfl) ht
  | globalStatement => exact announce (.of_residue rfl) ht
  | typeDefStatement => exact announce (.of_residue rfl) ht
  | functionDeclaration => exact (function hw ht (.inl htype)).congr (by simp)
  | functionExpression => exact (function hw ht (.inr htype)).congr (by simp)
  | identifier => exact identifier ht
  | literal => exact literal ht
  | thisExpression => exact this
  | arrayExpression => exact (array hw ht).congr (by simp)
  | objectExpression => exact (object hw ht htype).congr (by simp)
  | sequenceExpression => exact (sequence hw ht).congr (by simp)
  | unaryExpression => exact (unary hw ht).congr (by simp)
  | updateExpression => exact (update hw ht).congr (by simp)
  | binaryExpression => exact (binary hw ht).congr (by simp)
  | logicalExpression => exact (binary hw ht).congr (by simp)
  | assignmentExpression => exact (assignment hw ht).congr (by simp)
  | conditionalExpression => exact (conditional hw ht).congr (by simp [add_assoc])
  | callExpression => exact (call hw ht).congr (by simp)
  | newExpression => exact (construct hw ht).congr (by simp)
  | memberExpression => exact (member hw ht).congr (by simp)
  | reference => exact reference ht
  | dereference => exact (dereference hw ht).congr (by simp)
  | messageSendExpression => exact (send hw ht).congr (by simp [add_assoc])
  | arrayLiteral => exact (arrayLiteral hw ht).congr (by simp)
  | dictionaryLiteral => exact (dictionaryLiteral hw ht htype).congr (by simp)
  | selectorLiteralExpression => exact selectorLiteral ht
  | protocolLiteralExpression => exact protocolLiteral ht
  | classDeclaration => exact (classDeclaration hw ht htype).congr (by simp)
  | protocolDeclaration => exact (protocolDeclaration hw ht htype).congr (by simp)
  | methodDeclaration => exact (method hw ht htype).congr (by cases o <;> simp)
  | switchCase | catchClause | variableDeclarator | property | objectiveJType | actionType
  | ivarDeclaration | methodParameter | superReceiver => exact fun _ _ _ => trivial

end Forms

theorem Puts.formAs (hw : Writes A walk) (ht : Fits A (.tree t)) (manner : Manner)
    (hmanner : A.once → manner.suits (.tree t) = true) :
    Puts A (site.spot o) (compileAs walk t manner site) []
      ((t.type.codeParts o).map fun p => t.tallyOf A p.2 p.1).sum := by
  have htype (honce : A.once) (type : NodeType)
      (h : manner.suits (.tree t) = (Value.tree t).isNode type) : t.type = type := by
    have hnode := hmanner honce
    rw [h] at hnode
    simpa [Value.isNode] using hnode
  cases manner with
  | plain => exact form hw ht
  | elseIf =>
    refine (branch hw ht).conv (fun _ => .refl _) fun honce => ?_
    simp [htype honce .ifStatement rfl, NodeType.codeParts, NodeType.codeFields, add_assoc]
  | body isLambda =>
    refine (block hw ht true).conv (fun _ => .refl _) fun honce => ?_
    simp [htype honce .blockStatement rfl, NodeType.codeParts, NodeType.codeFields]

theorem Writes.succ (hw : Writes A (ObjectiveJ.walk height)) :
    Writes A (ObjectiveJ.walk (height + 1)) := by
  intro manner v site o hv hmanner
  cases v with
  | tree t =>
    rw [Value.tally_tree]
    exact .node fun _ => .formAs hw hv manner hmanner
  | data | list | tuple | location | accessors => exact fun _ _ _ => trivial

/-- The walk writes the code of a value: by induction on how deep it goes. -/
theorem writes_walk (height : Nat) : Writes A (ObjectiveJ.walk height) := by
  induction height with
  | zero => exact fun _ _ _ _ _ _ _ _ _ => trivial
  | succ height ih => exact ih.succ

end ObjectiveJ
