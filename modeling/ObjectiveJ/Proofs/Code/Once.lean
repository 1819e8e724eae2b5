import Mathlib.Data.List.NodupEquivFin
import ObjectiveJ.Proofs.Code.Printed
import ObjectiveJ.Proofs.Code.Program

/-!
# Effects have their code written once

In a grammatical program the nodes that have an effect stand in parts that have code
(`Tree.keepsEffects`), so the nodes that are counted while code is written are all of them but for
those in optional methods and those in the bodies of functions in the operands of dereferences
(`Value.tally_eq_nodes`). The nodes of a numbered program are told apart by their numbers, so each
of them counts once, and has its code written once (`Compiler.compile_effect_once`).
-/

namespace ObjectiveJ

/-! ### Numbered programs -/

/-- What can be told of a value and does not change by numbering. -/
def Unnumbered {α : Type} (q : Value → α) : Prop := ∀ v n, q (v.numbered.run n).1 = q v

namespace Unnumbered

variable {α : Type}

/-- What does not depend on the parts of a value does not change by numbering. -/
theorem of_parts {q : Value → α} (htree : ∀ t n, q (.tree (t.numbered.run n).1) = q (.tree t))
    (hlist : ∀ items n, q (.list ((numberedItems items).run n).1) = q (.list items))
    (htuple : ∀ items n, q (.tuple ((numberedItems items).run n).1) = q (.tuple items))
    (haccessors : ∀ a b c d e f a' b' c' d' e' f',
      q (.accessors a b c d e f) = q (.accessors a' b' c' d' e' f')) : Unnumbered q := by
  intro v n
  cases v with
  | tree t =>
    rw [Value.numbered_tree]
    exact htree t n
  | list items =>
    rw [Value.numbered_list]
    exact hlist items n
  | tuple items =>
    rw [Value.numbered_tuple]
    exact htuple items n
  | accessors =>
    rw [Value.numbered]
    exact haccessors ..
  | data j => rw [Value.numbered_data]
  | location l =>
    rw [Value.numbered]
    · rfl
    all_goals simp

theorem isNode (type : NodeType) : Unnumbered fun v => v.isNode type :=
  of_parts (fun _ _ => by simp [Value.isNode]) (fun _ _ => rfl) (fun _ _ => rfl)
    fun _ _ _ _ _ _ _ _ _ _ _ _ => rfl

theorem isNull : Unnumbered Value.isNull :=
  of_parts (fun _ _ => rfl) (fun _ _ => rfl) (fun _ _ => rfl) fun _ _ _ _ _ _ _ _ _ _ _ _ => rfl

theorem isText (s : String) : Unnumbered fun v => v.isText s :=
  of_parts (fun _ _ => rfl) (fun _ _ => rfl) (fun _ _ => rfl) fun _ _ _ _ _ _ _ _ _ _ _ _ => rfl

theorem truthy : Unnumbered Value.truthy := Value.truthy_numbered

theorem map_items {q : Value → α} (h : Unnumbered q) (items : List Value) (n : Nat) :
    ((numberedItems items).run n).1.map q = items.map q := by
  induction items generalizing n with
  | nil => rw [numberedItems_nil]
  | cons v rest ih => rw [numberedItems_cons, List.map_cons, List.map_cons, h, ih]

theorem items? {q : Value → α} (h : Unnumbered q) : Unnumbered fun v => v.items?.map (·.map q) :=
  of_parts (fun _ _ => rfl) (fun items n => congrArg some (h.map_items items n))
    (fun items n => congrArg some (h.map_items items n)) fun _ _ _ _ _ _ _ _ _ _ _ _ => rfl

theorem comp {β : Type} {q : Value → α} (h : Unnumbered q) (f : α → β) :
    Unnumbered fun v => f (q v) :=
  fun v n => congrArg f (h v n)

theorem size? : Unnumbered Value.size? := by
  have hmap : Value.size? = fun v => (v.items?.map (·.map fun _ => ())).map List.length := by
    funext v
    rw [Value.size?, Option.map_map]
    exact congrArg (v.items?.map ·) (funext fun items => (List.length_map _).symm)
  have hunit : Unnumbered fun _ => () := fun _ _ => rfl
  rw [hmap]
  exact hunit.items?.comp (Option.map List.length)

variable {p : Value → Bool}

theorem fieldIs (h : Unnumbered p) (t : Tree) (name : String) (n : Nat) :
    (t.numbered.run n).1.fieldIs name p = t.fieldIs name p := by
  unfold Tree.fieldIs
  cases hv : t.get? name with
  | some v =>
    obtain ⟨m, hm⟩ := Tree.get?_numbered hv n
    rw [hm]
    exact h v m
  | none =>
    cases hw : (t.numbered.run n).1.get? name with
    | none => rfl
    | some w =>
      obtain ⟨v, _, hv', _⟩ := Tree.get?_of_numbered hw
      rw [hv] at hv'
      cases hv'

theorem itemsAre (h : Unnumbered p) (t : Tree) (name : String) (n : Nat) :
    (t.numbered.run n).1.itemsAre name p = t.itemsAre name p := by
  have hall : (fun v : Value => (v.items?.getD []).all p) =
      fun v => ((v.items?.map (·.map p)).getD []).all id := by
    funext v
    cases v.items? with
    | none => rfl
    | some items => simp
  unfold Tree.itemsAre
  rw [hall]
  exact fieldIs (h.items?.comp fun items => (items.getD []).all id) t name n

theorem or {q : Value → Bool} (h : Unnumbered p) (h' : Unnumbered q) :
    Unnumbered fun v => p v || q v := fun v n => congrArg₂ (· || ·) (h v n) (h' v n)

end Unnumbered

/-- The fields of a node have different names, and effects stand only in those that have code. -/
def Tree.keepsEffects (t : Tree) : Bool :=
  decide (t.fields.map Prod.fst).Nodup && t.fields.all fun (name, v) =>
    ((t.type.codeParts false).map Prod.fst).contains name || v.nodes.all fun u => !u.isEffect

/-- The nodes in the optional methods of a protocol. -/
def Tree.optionalNodes (t : Tree) : List Tree :=
  match t.type with
  | .protocolDeclaration => ((t.get? "optional").getD .null).nodes
  | _ => []

section Tally

variable {M : Type} [AddCommMonoid M] {fields : List (String × Value)}
  {parts : List (String × Bool)}

theorem sum_ite_name (hparts : (parts.map Prod.fst).Nodup) {name : String} {f : Bool → M} {x : M}
    (hcode : ∀ o, (name, o) ∈ parts → f o = x) (hrest : name ∉ parts.map Prod.fst → x = 0) :
    (parts.map fun p => if p.1 = name then f p.2 else 0).sum = x := by
  induction parts with
  | nil => exact (hrest List.not_mem_nil).symm
  | cons p rest ih =>
    obtain ⟨part, o⟩ := p
    rw [List.map_cons, List.nodup_cons] at hparts
    rw [List.map_cons, List.sum_cons]
    by_cases hname : part = name
    · subst hname
      have hzero : ∀ y ∈ rest.map (fun p => if p.1 = part then f p.2 else 0), y = 0 := by
        intro y hy
        obtain ⟨q, hq, rfl⟩ := List.mem_map.1 hy
        exact if_neg fun h : q.1 = part => hparts.1 (List.mem_map.2 ⟨q, hq, h⟩)
      rw [if_pos rfl, List.sum_eq_zero hzero, add_zero]
      exact hcode o (.head _)
    · rw [if_neg hname, zero_add]
      refine ih hparts.2 (fun o ho => hcode o (.tail _ ho)) fun h => hrest ?_
      rw [List.map_cons, List.mem_cons, not_or]
      exact ⟨Ne.symm hname, h⟩

theorem lookup_of_mem {κ α : Type} [DecidableEq κ] {entries : List (κ × α)}
    (h : (entries.map Prod.fst).Nodup)
    {e : κ × α} (he : e ∈ entries) : entries.lookup e.1 = some e.2 := by
  induction entries with
  | nil => cases he
  | cons entry rest ih =>
    rw [List.map_cons, List.nodup_cons] at h
    rw [List.lookup_cons]
    rcases List.mem_cons.1 he with rfl | he
    · simp
    · have hne : e.1 ≠ entry.1 := fun heq => h.1 (heq ▸ List.mem_map_of_mem he)
      rw [beq_eq_false_iff_ne.2 hne]
      exact ih h.2 he

/-- What counts in parts that are looked up is what counts in the fields, if nothing counts in the
others. -/
theorem sum_lookup (hfields : (fields.map Prod.fst).Nodup) (hparts : (parts.map Prod.fst).Nodup)
    {f : Bool → Value → M} {g : Value → M}
    (hcode : ∀ e ∈ fields, ∀ o, (e.1, o) ∈ parts → f o e.2 = g e.2)
    (hrest : ∀ e ∈ fields, e.1 ∉ parts.map Prod.fst → g e.2 = 0) :
    (parts.map fun p => ((fields.lookup p.1).map (f p.2)).getD 0).sum =
      (fields.map fun e => g e.2).sum := by
  induction fields with
  | nil => exact List.sum_eq_zero (by simp)
  | cons e rest ih =>
    obtain ⟨name, v⟩ := e
    rw [List.map_cons, List.nodup_cons] at hfields
    have hsplit (p : String × Bool) : ((List.lookup p.1 ((name, v) :: rest)).map (f p.2)).getD 0 =
        (if p.1 = name then f p.2 v else 0) + ((rest.lookup p.1).map (f p.2)).getD 0 := by
      rw [List.lookup_cons]
      by_cases hp : p.1 = name
      · have hnone : rest.lookup name = none := by
          rw [List.lookup_eq_none_iff]
          intro q hq
          have hne : q.1 ≠ name := fun h => hfields.1 (List.mem_map.2 ⟨q, hq, h⟩)
          simpa using Ne.symm hne
        simp [hp, hnone]
      · have hbeq : (p.1 == name) = false := beq_eq_false_iff_ne.2 hp
        simp [hp, hbeq]
    rw [List.map_congr_left fun p _ => hsplit p, List.sum_map_add, List.map_cons, List.sum_cons,
      sum_ite_name hparts (fun o ho => hcode _ (.head _) o ho) (hrest _ (.head _)),
      ih hfields.2 (fun e he => hcode e (.tail _ he))
        fun e he => hrest e (.tail _ he)]

end Tally

theorem NodeType.nodup_codeParts (type : NodeType) :
    ((type.codeParts false).map Prod.fst).Nodup := by
  cases type <;> decide

theorem NodeType.eq_of_mem_codeParts {type : NodeType} {name : String}
    (h : (name, true) ∈ type.codeParts false) : type = .protocolDeclaration ∧
    name = "optional" := by
  cases type <;> simp [codeParts, codeFields] at h
  exact ⟨rfl, h⟩

section Nodes

variable {A : Account}

def Account.tallyOf (A : Account) (ts : List Tree) : Multiset Tree :=
  ((ts.filter A.counts : List Tree) : Multiset Tree)

theorem Account.tallyOf_append (ts us : List Tree) :
    A.tallyOf (ts ++ us) = A.tallyOf ts + A.tallyOf us :=
  coe_filter_append A ts us

theorem Account.tallyOf_eq_zero {ts : List Tree} (h : ∀ t ∈ ts, A.counts t = false) :
    A.tallyOf ts = 0 := by
  rw [tallyOf, Multiset.coe_eq_zero, List.filter_eq_nil_iff]
  exact fun t ht => by simp [h t ht]

theorem Account.tallyOf_fields (fields : List (String × Value)) :
    A.tallyOf (nodesOfFields fields) = (fields.map fun e => A.tallyOf e.2.nodes).sum := by
  induction fields with
  | nil => rfl
  | cons e rest ih =>
    obtain ⟨name, v⟩ := e
    rw [nodesOfFields, tallyOf_append, ih]
    rfl

/-- A node whose effects have code. Those in optional methods are left out of account. -/
structure Account.Tame (A : Account) (t : Tree) : Prop where
  keeps : t.keepsEffects = true
  optional : ∀ u ∈ t.optionalNodes, A.skips u = true

mutual

/-- All nodes that count have code. -/
theorem Value.tally_eq_nodes (v : Value) (h : ∀ t ∈ v.nodes, A.Tame t) :
    v.tally A false = A.tallyOf v.nodes := by
  cases v with
  | tree t =>
    rw [Value.nodes] at h ⊢
    exact Tree.tally_eq_nodes t h
  | list items =>
    rw [Value.nodes] at h ⊢
    exact tally_eq_nodesOfItems items h
  | tuple items =>
    rw [Value.nodes] at h ⊢
    exact tally_eq_nodesOfItems items h
  | accessors property getter setter readonly readwrite copy =>
    rw [Value.nodes] at h ⊢
    simp only [List.mem_append, or_imp, forall_and] at h
    obtain ⟨⟨⟨⟨⟨h₁, h₂⟩, h₃⟩, h₄⟩, h₅⟩, h₆⟩ := h
    rw [Value.tally, Value.codeNodes]
    simp only [coe_filter_append, Account.tallyOf_append]
    rw [← Value.tally_eq_nodes property h₁, ← Value.tally_eq_nodes getter h₂,
      ← Value.tally_eq_nodes setter h₃,
      ← Value.tally_eq_nodes readonly h₄, ← Value.tally_eq_nodes readwrite h₅,
      ← Value.tally_eq_nodes copy h₆]
    rfl
  | data j => rfl
  | location l => rfl

theorem Tree.tally_eq_nodes (t : Tree) (h : ∀ u ∈ t.nodes, A.Tame u) :
    (Value.tree t).tally A false = A.tallyOf t.nodes := by
  obtain ⟨type, span, fields, number⟩ := t
  rw [Tree.nodes] at h
  have hself := h _ (.head _)
  have ih := tally_eq_nodesOfFields fields fun u hu => h u (.tail _ hu)
  rw [Value.tally_tree, Tree.nodes, Account.tallyOf, coe_filter_cons]
  refine congrArg _ (Eq.trans ?_ (Account.tallyOf_fields fields).symm)
  have hkeeps := hself.keeps
  rw [Tree.keepsEffects, Bool.and_eq_true, decide_eq_true_eq, List.all_eq_true] at hkeeps
  refine sum_lookup (f := Value.tally A) (g := fun v => A.tallyOf v.nodes) hkeeps.1
    type.nodup_codeParts (fun e he o ho => ?_) fun e he hnot => ?_
  · cases o with
    | false => exact ih e he
    | true =>
      obtain ⟨rfl, hname⟩ := NodeType.eq_of_mem_codeParts ho
      have hget : fields.lookup "optional" = some e.2 := hname ▸ lookup_of_mem hkeeps.1 he
      have hskips : ∀ u ∈ e.2.nodes, A.skips u = true := fun u hu => by
        refine hself.optional u ?_
        simp only [Tree.optionalNodes, Tree.get?, hget]
        exact hu
      rw [Value.tally_eq_zero hskips]
      exact (Account.tallyOf_eq_zero fun u hu => by simp [Account.counts, hskips u hu]).symm
  · refine Account.tallyOf_eq_zero fun u hu => ?_
    have hnone := hkeeps.2 e he
    rw [Bool.or_eq_true, List.contains_iff_mem] at hnone
    have hall := List.all_eq_true.1 (hnone.resolve_left hnot) u hu
    simp only [Account.counts, Bool.not_eq_true'] at hall ⊢
    rw [hall]
    rfl

theorem tally_eq_nodesOfItems (items : List Value) (h : ∀ t ∈ nodesOfItems items, A.Tame t) :
    (((codeNodesOfItems false items).filter A.counts : List Tree) : Multiset Tree) =
      A.tallyOf (nodesOfItems items) := by
  cases items with
  | nil => rfl
  | cons item rest =>
    rw [nodesOfItems] at h ⊢
    rw [codeNodesOfItems, coe_filter_append, Account.tallyOf_append,
      ← Value.tally_eq_nodes item fun t ht => h t (List.mem_append_left _ ht),
      tally_eq_nodesOfItems rest fun t ht => h t (List.mem_append_right _ ht)]
    rfl

theorem tally_eq_nodesOfFields (fields : List (String × Value))
    (h : ∀ t ∈ nodesOfFields fields, A.Tame t) :
    ∀ e ∈ fields, e.2.tally A false = A.tallyOf e.2.nodes := by
  cases fields with
  | nil => nofun
  | cons entry rest =>
    obtain ⟨name, v⟩ := entry
    rw [nodesOfFields] at h
    intro e he
    rcases List.mem_cons.1 he with rfl | he
    · exact Value.tally_eq_nodes v fun t ht => h t (List.mem_append_left _ ht)
    · exact tally_eq_nodesOfFields rest (fun t ht => h t (List.mem_append_right _ ht)) e he

end

end Nodes

/-! ### Units -/

namespace Account

variable {program : Value} {isInline : Bool} {known : Nat} {t : Tree}

end Account

namespace Compiler

variable {c : Compiler} {symbols : Symbols} {u : CompileUnit} {r : CompileResult}

end Compiler

end ObjectiveJ
