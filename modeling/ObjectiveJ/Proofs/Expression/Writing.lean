import ObjectiveJ.Generate.Walk
import ObjectiveJ.Proofs.Expression.FileLevel
import ObjectiveJ.Proofs.Format

/-!
# The code of expressions at file level

`Gen.Writes symbols f m cs` says that a step at file level writes the text `cs` under the format
`f`, whatever has been written before. Steps one after another write their texts one after another.

`Denotes.isWritten` is the result: the code of a node is a text of its expression.
-/

namespace ObjectiveJ

open Script

variable {site : Site}

namespace Gen

variable {k : Unit → Gen Unit} {m : Gen Unit}

variable {symbols : Symbols} {f : Format} {α : Type} {cs ds : List Char}

/-- From a state a step comes to file level and has written a text, or it fails because of a clash
of names. -/
def WritesFrom (symbols : Symbols) (f : Format) (s : GenState) (m : Gen Unit) (cs : List Char) :
    Prop :=
  wp m (fun _ t => AtFileLevel symbols t ∧ ∃ is, t.trace.toList = s.trace.toList ++ is ∧
    plainTexts? f is = some cs ∧ ∀ i ∈ is, i.PlacedBy Location.IsPlain)
    (fun _ _ => ¬ symbols.IsFresh) s

/-- A step at file level that writes a text whatever the state. -/
def Writes (symbols : Symbols) (f : Format) (m : Gen Unit) (cs : List Char) : Prop :=
  ∀ s, AtFileLevel symbols s → WritesFrom symbols f s m cs

theorem WritesFrom.bind {s : GenState} (hm : WritesFrom symbols f s m cs)
    (hk : Writes symbols f (k ()) ds) : WritesFrom symbols f s (m >>= k) (cs ++ ds) := by
  unfold WritesFrom
  rw [wp_bind]
  refine hm.imp fun _ t ht => ?_
  obtain ⟨ht, is, htrace, htext, hplaced⟩ := ht
  refine (hk t ht).imp fun _ u hu => ?_
  obtain ⟨hu, js, htrace', htext', hplaced'⟩ := hu
  refine ⟨hu, is ++ js, ?_, plainTexts?_append htext htext', ?_⟩
  · rw [htrace', htrace, List.append_assoc]
  · intro i hi
    rcases List.mem_append.1 hi with hi | hi
    · exact hplaced i hi
    · exact hplaced' i hi

namespace Writes

theorem ofQuiet (h : Quiet symbols m) : Writes symbols f m [] := by
  intro s hs
  refine (h s hs).imp fun _ t ht => ?_
  exact ⟨ht.1, [], by simp [ht.2], rfl, by simp⟩

theorem quiet_bind {m : Gen α} {k : α → Gen Unit} (hm : Quiet symbols m)
    (hk : ∀ a, Writes symbols f (k a) cs) : Writes symbols f (m >>= k) cs := by
  intro s hs
  unfold WritesFrom
  rw [wp_bind]
  refine (hm s hs).imp fun a t ht => ?_
  refine (hk a t ht.1).imp fun _ u hu => ?_
  rwa [ht.2] at hu

theorem bind (hm : Writes symbols f m cs) (hk : Writes symbols f (k ()) ds) :
    Writes symbols f (m >>= k) (cs ++ ds) :=
  fun s hs => (hm s hs).bind hk

theorem bind_quiet (hm : Writes symbols f m cs) (hk : Quiet symbols (k ())) :
    Writes symbols f (m >>= k) cs := by
  have hboth := hm.bind (ofQuiet (f := f) hk)
  rwa [List.append_nil] at hboth

theorem emit {i : Instr} (htext : i.plainText? f = some cs)
    (hplaced : i.PlacedBy Location.IsPlain) : Writes symbols f (emit i) cs := by
  intro s hs
  rw [WritesFrom, wp, run_emit i hs.stop]
  refine ⟨⟨hs.stop, hs.errors, hs.symbols, hs.frames⟩, [i], by simp,
    by simp [plainTexts?, htext], ?_⟩
  intro j hj
  rwa [List.mem_singleton.1 hj]

theorem textAt (s : String) {location : Option Location}
    (h : ∀ l, location = some l → l.IsPlain) : Writes symbols f (textAt 0 s location) s.toList :=
  emit rfl h

theorem text (s : String) : Writes symbols f (text 0 s) s.toList := textAt s (by simp)

end Writes

theorem field_eq {t : Tree} {name : String} {v : Value} (h : t.get? name = some v) :
    field t name = pure v := by
  rw [field, h, ofOption]

/-! ### Hooks -/

section Hooks

variable (hf : f = Format.bundled "cappuccino" ∨ f = Format.bundled "compact") {type : String}
  (htype : type ∈ Format.operatorTypes)

include hf htype

theorem writes_hook (key text : String) (hkey : (key, text) ∈ Format.pieces) :
    Writes symbols f (hook 0 type key) text.toList := by
  have hne : ∀ type ∈ Format.operatorTypes, type.isEmpty = false := by decide
  have hfixed := Format.fixed?_bundled f (by simpa using hf) type htype (key, text) hkey
  intro s hs
  refine Writes.emit (i := .hook 0 type (.plain key) s.ancestry) ?_ trivial s hs
  exact Format.plainText?_of_fixed? hfixed (hne type htype) _

theorem writes_formatted (s key : String) (hbefore : ("before-" ++ key, "") ∈ Format.pieces)
    (hafter : ("after-" ++ key, "") ∈ Format.pieces) :
    Writes symbols f (formatted 0 type s key) s.toList := by
  have h : Writes symbols f (formatted 0 type s key) ([] ++ (s.toList ++ [])) :=
    (writes_hook hf htype _ "" hbefore).bind
      ((Writes.text s).bind (writes_hook hf htype _ "" hafter))
  simpa using h

theorem writes_operator (op : String) :
    Writes symbols f (operator 0 type (.str op)) (' ' :: (op.toList ++ [' '])) :=
  (writes_hook hf htype "before-operator" " " (by decide)).bind
    ((Writes.text op).bind (writes_hook hf htype "after-operator" " " (by decide)))

theorem writes_comma : Writes symbols f (comma 0 type) [',', ' '] :=
  (writes_hook hf htype "before-comma" "" (by decide)).bind
    ((Writes.text ",").bind (writes_hook hf htype "after-comma" " " (by decide)))

theorem writes_parenthesized {body : Walk} (hbuffer : site.buffer = 0)
    (hbody : Writes symbols f (body site) cs) :
    Writes symbols f (parenthesized type body site) ('(' :: (cs ++ [')'])) := by
  unfold parenthesized
  rw [hbuffer]
  exact (writes_formatted hf htype "(" "left-parens" (by decide) (by decide)).bind
    (hbody.bind (writes_formatted hf htype ")" "right-parens" (by decide) (by decide)))

theorem writes_enclose {role : StatementRole} {body : Walk} (hbuffer : site.buffer = 0)
    (hbody : Writes symbols f (body { site with type }) cs) :
    Writes symbols f (enclose type role body site) cs := by
  have hancestry : ∀ g : Ancestry → Ancestry,
      Quiet symbols (modify fun s => { s with ancestry := g s.ancestry }) := fun _ _ hs =>
    ⟨⟨hs.stop, hs.errors, hs.symbols, hs.frames⟩, rfl⟩
  obtain ⟨frame, buffer, type', inMessage, earlier⟩ := site
  obtain rfl : buffer = 0 := hbuffer
  refine Writes.quiet_bind (hancestry _) fun _ => Writes.bind_quiet ?_ (hancestry _)
  have hbefore : Writes symbols f _ [] := writes_hook hf htype "before" "" (by decide)
  have hafter : Writes symbols f _ [] := writes_hook hf htype "after" "" (by decide)
  have h := hbefore.bind (k := fun _ => _) (hbody.bind (k := fun _ => _) hafter)
  simpa using h

end Hooks

end Gen

/-- The site of code that goes into the buffer of the unit at file level. -/
structure Site.AtTop (site : Site) : Prop where
  frame : site.frame = 0
  buffer : site.buffer = 0

namespace Expression

open Gen

variable {symbols : Symbols} {f : Format} {t : Tree} {site : Site}

/-- At file level a name is that of a property, or neither a variable of a function nor an instance
variable. -/
theorem wp_meaning {s : GenState} (hs : AtFileLevel symbols s) (name : Value)
    {E : Failure → GenState → Prop} :
    wp (meaning 0 name) (fun m t => t = s ∧ (m = .property ∨ m = .other)) E s := by
  obtain ⟨frame, hstore, hframe⟩ := hs.frames
  unfold meaning
  simp only [wp_bind, wp_get, Frames.isLocal_root hstore hframe]
  split
  · exact ⟨rfl, .inl rfl⟩
  · exact ⟨rfl, .inr rfl⟩

theorem writes_identifier (hsite : site.AtTop) (hplaced : t.IsPlaced) (htype : t.type = .identifier)
    {name : String} (hname : t.get? "name" = some (.str name)) :
    Writes symbols f (identifier t site) name.toList := by
  obtain ⟨frame, buffer, type, inMessage, earlier⟩ := site
  obtain ⟨rfl, rfl⟩ : frame = 0 ∧ buffer = 0 := ⟨hsite.frame, hsite.buffer⟩
  have hcheck : Quiet symbols (Check.identifier 0 t) :=
    Check.quiet_identifier hplaced htype hname
  unfold identifier
  rw [field_eq hname, pure_bind]
  intro s hs
  rw [WritesFrom, wp_bind]
  refine (wp_meaning hs (.str name)).imp ?_
  rintro m _ ⟨rfl, rfl | rfl⟩
  · exact (Writes.textAt name hplaced).bind_quiet (Quiet.setContext _) _ hs
  · exact (Writes.textAt name hplaced).bind_quiet (hcheck.bind fun _ => Quiet.setContext _) _ hs

theorem writes_this (hsite : site.AtTop) (hplaced : t.IsPlaced) :
    Writes symbols f (this t site) "this".toList := by
  unfold this
  rw [hsite.buffer]
  exact Writes.textAt "this" hplaced

/-- The text of a string, as it was written or as it is written in JSON. -/
theorem literalText?_string {s : String} {raw : Value} (h : raw.truthy = false ∨
    ∃ r text, raw = .str r ∧ IsRaw r text ∧ stringValue? text = some (s.toList.flatMap utf16)) :
    ∃ text, literalText? (.str s) raw = some text ∧
      stringValue? text = some (s.toList.flatMap utf16) := by
  rcases h with hraw | ⟨r, text, rfl, hr, htext⟩
  · exact ⟨Json.quote s, by simp [literalText?, hraw], stringValue?_quote s⟩
  · refine ⟨text, ?_, htext⟩
    obtain ⟨c, cs, heq, hc, -⟩ := exists_quote_of_stringValue? htext
    have hsign : c ≠ '@' := by
      rintro rfl
      exact absurd hc (by decide)
    rcases hr with rfl | rfl
    · have hne : r.isEmpty = false := by
        rw [← Bool.not_eq_true, String.isEmpty_iff]
        rintro rfl
        simp at heq
      simp only [literalText?, Value.truthy, Json.truthy, hne, Bool.not_false, if_true, Value.text?,
        Option.map_some]
      split
      · rename_i rest hrest
        rw [heq] at hrest
        exact absurd (List.cons.inj hrest).1 hsign
      · rfl
    · have hlist : ("@" ++ text).toList = '@' :: text.toList := by simp
      have hne : ("@" ++ text).isEmpty = false := by
        rw [← Bool.not_eq_true, String.isEmpty_iff, ← String.toList_inj, hlist]
        simp
      simp [literalText?, Value.truthy, Json.truthy, hne, Value.text?]

/-- At file level there is no method whose `self` may be nil. -/
theorem quiet_selfMayBeNil : Quiet symbols (selfMayBeNil 0) := by
  unfold selfMayBeNil
  refine Quiet.get.bind fun s => ?_
  split
  · rename_i owner _
    intro s hs
    obtain ⟨frame, hstore, hframe⟩ := hs.frames
    rw [modifyFrames, wp_modify]
    refine ⟨⟨hs.stop, hs.errors, hs.symbols, ?_⟩, rfl⟩
    cases owner with
    | zero =>
      exact ⟨_, Frames.modify_root hstore _, hframe.kind, hframe.parent, hframe.maxLevel,
        hframe.parked⟩
    | succ owner =>
      refine ⟨frame, ?_, hframe⟩
      simp [Frames.modify, hstore]
  · exact Quiet.pure ()

end Expression

/-! ### Nodes and operands -/

open Gen

variable {symbols : Symbols} {f : Format} {A : Alphabet} {t : Tree} {v : Value} {e : Expr} {k : Nat}

/-- What is compiled for a value at file level is a text of an expression. -/
def IsWritten (symbols : Symbols) (f : Format) (A : Alphabet) (v : Value) (k : Nat) (e : Expr)
    (compile : Walker → Walk) : Prop :=
  ∃ cs, Spells A k cs e ∧ ∀ n, v.height ≤ n → ∀ site : Site, site.AtTop →
    Writes symbols f (compile (walk n) site) cs

theorem Denotes.type_mem (h : Denotes A (.tree t) e) : t.type.name ∈ Format.operatorTypes := by
  cases h with
  | ident _ htype | this _ htype | string _ htype | unary _ htype | call _ htype | member htype
  | index htype | assign htype | conditional htype =>
    rw [htype]
    decide
  | @binary _ op _ _ _ _ _ htype =>
    rw [htype]
    rcases binaryType_cases op with hbinary | hlogical
    · rw [hbinary]
      decide
    · rw [hlogical]
      decide

theorem Value.height_tree_pos (t : Tree) : 0 < (Value.tree t).height := by
  obtain ⟨type, span, fields, number⟩ := t
  rw [Value.height, Tree.height]
  exact Nat.succ_pos _

section

variable (hf : f = Format.bundled "cappuccino" ∨ f = Format.bundled "compact")

include hf

/-- The code of a node is that of its form, which is compiled with less fuel. -/
theorem isWritten_node {cs : List Char} (hd : Denotes A (.tree t) e) (hcs : Spells A k cs e)
    (hform : ∀ n, t.height ≤ n + 1 → ∀ site : Site, site.AtTop → site.type = t.type.name →
      Writes symbols f (compileForm (walk n) t site) cs) :
    IsWritten symbols f A (.tree t) k e (· .plain (.tree t)) := by
  refine ⟨cs, hcs, fun n hn site hsite => ?_⟩
  cases n with
  | zero => exact absurd (Value.height_tree_pos t) (by omega)
  | succ n =>
    have hheight : t.height ≤ n + 1 := by rwa [Value.height] at hn
    exact writes_enclose hf hd.type_mem hsite.buffer
      (hform n hheight _ ⟨hsite.frame, hsite.buffer⟩ rfl)

/-- An operand is written at the level of its place, in parentheses if need be. -/
theorem IsWritten.operand (h : IsWritten symbols f A (.tree t) e.level e (· .plain (.tree t)))
    (hd : Denotes A (.tree t) e) {p : Tree} {right : Bool} (hk : k ≤ 15)
    (hparens : ∃ b, Precedence.needsParens? p t right = some b ∧ (b = false → e.level ≤ k)) :
    IsWritten symbols f A (.tree t) k e (operand · p (.tree t) right) := by
  obtain ⟨cs, hcs, hwrites⟩ := h
  obtain ⟨b, hneeds, hlevel⟩ := hparens
  have hrun : ∀ (w : Walker) site, Gen.operand w p (.tree t) right site =
      if b = true then parenthesized t.type.name (w .plain (.tree t)) site
      else w .plain (.tree t) site := by
    intro w site
    simp only [Gen.operand, treeOf, pure_bind, hneeds, ofOption]
  cases b with
  | false =>
    refine ⟨cs, hcs.mono (hlevel rfl) hk, fun n hn site hsite => ?_⟩
    change Writes symbols f (Gen.operand (walk n) p (.tree t) right site) _
    rw [hrun, if_neg (by decide)]
    exact hwrites n hn site hsite
  | true =>
    refine ⟨_, (hcs.group (Nat.le_trans hd.level_le (by decide))).mono (Nat.zero_le k) hk, ?_⟩
    intro n hn site hsite
    change Writes symbols f (Gen.operand (walk n) p (.tree t) right site) _
    rw [hrun, if_pos rfl]
    exact writes_parenthesized hf hd.type_mem hsite.buffer (hwrites n hn site hsite)

/-- What is called, or has a member, is written at the innermost level. -/
theorem IsWritten.base (h : IsWritten symbols f A v e.level e (· .plain v)) (hd : Denotes A v e)
    {p : Tree} (hp : Precedence.isBinary p.type = false ∧ Precedence.ofType p.type ≤ 1) :
    IsWritten symbols f A v 1 e (Gen.operand · p v false) := by
  obtain ⟨t, rfl⟩ := hd.isTree
  obtain ⟨b, hneeds, hlevel⟩ := hd.needsParens?_other hp.1 false
  exact h.operand hf hd (by decide) ⟨b, hneeds, fun hb => (hlevel hb).1 hp.2⟩

theorem writes_separated {type : String} (htype : type ∈ Format.operatorTypes) (n : Nat)
    (parts : List (Value × List Char))
    (h : ∀ p ∈ parts, ∀ site : Site, site.AtTop → Writes symbols f (walk n .plain p.1 site) p.2)
    (hsite : site.AtTop) (hsiteType : site.type = type) :
    Writes symbols f (separated (walk n) (parts.map (·.1)) site) (listed (parts.map (·.2))) := by
  induction parts with
  | nil => exact Writes.ofQuiet (Quiet.pure ())
  | cons p parts ih =>
    cases parts with
    | nil => exact h p (by simp) site hsite
    | cons q parts =>
      have hp := h p (by simp) site hsite
      have hrest := ih fun q hq => h q (by simp [hq])
      have hcomma : Writes symbols f (comma site.buffer site.type) [',', ' '] := by
        rw [hsite.buffer, hsiteType]
        exact writes_comma hf htype
      exact hp.bind (k := fun _ => _) (hcomma.bind (k := fun _ => _) hrest)

/-! ### The forms of expressions, given the texts of their parts -/

section Forms

variable {op : String}

variable {w : Walker} {site : Site} {cs ds ds' : List Char} (hsite : site.AtTop)
  (htype : site.type ∈ Format.operatorTypes)

include hsite

omit hf in
theorem writes_unary {argument : Value} (hplaced : t.IsPlaced)
    (hop : t.get? "operator" = some (.str op)) (hargument : t.get? "argument" = some argument)
    (h : Writes symbols f (operand w t argument false site) cs) :
    Writes symbols f (Expression.unary w t site)
      (op.toList ++ ((if Expression.wordOperators.contains op then [' '] else []) ++ cs)) := by
  have hkey : Gen.key (.str op) = pure (.text op) := rfl
  unfold Expression.unary
  rw [hsite.buffer]
  simp only [field_eq hop, field_eq hargument, pure_bind, hkey, Key.text?, Option.map_some,
    Option.getD_some]
  refine (Writes.textAt op hplaced).bind (k := fun _ => _) ?_
  split
  · exact (Writes.text " ").bind h
  · exact h

include hf htype

theorem writes_binary {left right : Value} (hopField : t.get? "operator" = some (.str op))
    (hleft : t.get? "left" = some left) (hright : t.get? "right" = some right)
    (hl : Writes symbols f (operand w t left false site) cs)
    (hr : Writes symbols f (operand w t right true site) ds) :
    Writes symbols f (Expression.binary w t site)
      (cs ++ ((' ' :: (op.toList ++ [' '])) ++ ds)) := by
  have htext : textOf (.str op) = pure op := rfl
  have hbetween : Writes symbols f (Expression.binaryOperator op site)
      (' ' :: (op.toList ++ [' '])) := by
    unfold Expression.binaryOperator
    rw [hsite.buffer]
    split
    · have h : Writes symbols f _ _ := Writes.text (" " ++ op ++ " ")
      simpa using h
    · exact writes_operator hf htype op
  unfold Expression.binary
  simp only [field_eq hopField, field_eq hleft, field_eq hright, pure_bind, htext]
  exact hl.bind (k := fun _ => _) (hbetween.bind (k := fun _ => _) hr)

theorem writes_assignment {left right : Value} (hopField : t.get? "operator" = some (.str op))
    (hleft : t.get? "left" = some left) (hright : t.get? "right" = some right)
    (hplain : left.isNode .dereference = false)
    (hl : Writes symbols f (operand w t left false site) cs)
    (hr : Writes symbols f (operand w t right true site) ds) :
    Writes symbols f (Expression.assignment w t site)
      (cs ++ ((' ' :: (op.toList ++ [' '])) ++ ds)) := by
  have hassign : Writes symbols f (operator site.buffer site.type (.str op))
      (' ' :: (op.toList ++ [' '])) := by
    rw [hsite.buffer]
    exact writes_operator hf htype op
  unfold Expression.assignment
  simp only [field_eq hopField, field_eq hleft, field_eq hright, pure_bind, hplain, hsite.frame]
  rw [if_neg (by decide)]
  refine Writes.quiet_bind Quiet.get fun s => Writes.quiet_bind (Quiet.setContext _) fun _ => ?_
  have hrest := hl.bind (k := fun _ => _) (hassign.bind (k := fun _ => _)
    (Writes.quiet_bind (Quiet.setContext fun c =>
      { c with assignment := (s.frames.context 0).assignment }) fun _ => hr))
  split
  · exact Writes.quiet_bind Expression.quiet_selfMayBeNil fun _ => hrest
  · exact hrest

theorem writes_conditional {test consequent alternate : Value} (htest : t.get? "test" = some test)
    (hconsequent : t.get? "consequent" = some consequent)
    (halternate : t.get? "alternate" = some alternate)
    (ht : Writes symbols f (operand w t test false site) cs)
    (hy : Writes symbols f (w .plain consequent site) ds)
    (hn : Writes symbols f (w .plain alternate site) ds') :
    Writes symbols f (Expression.conditional w t site)
      (cs ++ ([' ', '?', ' '] ++ (ds ++ ([' ', ':', ' '] ++ ds')))) := by
  have hoperator : ∀ op : String, Writes symbols f (operator site.buffer site.type (.str op))
      (' ' :: (op.toList ++ [' '])) := by
    intro op
    rw [hsite.buffer]
    exact writes_operator hf htype op
  unfold Expression.conditional
  simp only [field_eq htest, field_eq hconsequent, field_eq halternate, pure_bind]
  exact ht.bind (k := fun _ => _) ((hoperator "?").bind (k := fun _ => _) (hy.bind (k := fun _ => _)
    ((hoperator ":").bind (k := fun _ => _) hn)))

theorem writes_arguments {args : List Value} (hargs : t.get? "arguments" = some (.list args))
    (hnone : args = [] → cs = []) (h : Writes symbols f (separated w args site) cs) :
    Writes symbols f (Expression.arguments w t site) ('(' :: (cs ++ [')'])) := by
  have hnothing : ∀ key, (key, "") ∈ Format.pieces →
      Writes symbols f (hook site.buffer site.type key) [] := by
    intro key hkey
    rw [hsite.buffer]
    exact writes_hook hf htype key "" hkey
  have htext : ∀ s, Writes symbols f (text site.buffer s) s.toList := by
    rw [hsite.buffer]
    exact Writes.text
  have hitems : Gen.items (.list args) = pure args := rfl
  unfold Expression.arguments
  simp only [field_eq hargs, pure_bind, hitems]
  have hclose := (htext ")").bind (k := fun _ => _) (hnothing "after-right-parens" (by decide))
  split
  · have hall := (hnothing "before-left-parens" (by decide)).bind (k := fun _ => _)
      ((htext "(").bind (k := fun _ => _)
        ((hnothing "after-left-parens" (by decide)).bind (k := fun _ => _)
          (h.bind (k := fun _ => _)
            ((hnothing "before-right-parens" (by decide)).bind (k := fun _ => _) hclose))))
    simpa using hall
  · rename_i hempty
    obtain rfl : args = [] := by simpa [Value.truthy] using hempty
    obtain rfl := hnone rfl
    have hall := (hnothing "before-left-parens" (by decide)).bind (k := fun _ => _)
      ((htext "(").bind (k := fun _ => _) hclose)
    simpa using hall

theorem writes_call {callee : Value} {args : List Value} (hcallee : t.get? "callee" = some callee)
    (hargs : t.get? "arguments" = some (.list args)) (hnone : args = [] → ds = [])
    (hc : Writes symbols f (operand w t callee false site) cs)
    (h : Writes symbols f (separated w args site) ds) :
    Writes symbols f (Expression.call w t site) (cs ++ '(' :: (ds ++ [')'])) := by
  have hrest := hc.bind (k := fun _ => _) (writes_arguments hf hsite htype hargs hnone h)
  unfold Expression.call
  simp only [field_eq hcallee, pure_bind, hsite.frame]
  split
  · exact Writes.quiet_bind Expression.quiet_selfMayBeNil fun _ => hrest
  · exact hrest

omit hf htype in
theorem writes_member {object property computed : Value} (hobject : t.get? "object" = some object)
    (hproperty : t.get? "property" = some property) (hcomputed : t.get? "computed" = some computed)
    (hplain : computed.truthy = false) (ho : Writes symbols f (operand w t object false site) cs)
    (hp : Writes symbols f (w .plain property site) ds) :
    Writes symbols f (Expression.member w t site) (cs ++ '.' :: ds) := by
  have hdot : Writes symbols f (text site.buffer ".") ['.'] := by
    rw [hsite.buffer]
    exact Writes.text "."
  unfold Expression.member
  simp only [field_eq hobject, field_eq hproperty, field_eq hcomputed, pure_bind, hplain,
    hsite.frame]
  rw [if_neg (by decide)]
  refine Writes.quiet_bind (Quiet.setContext _) fun _ => ho.bind (k := fun _ => _) ?_
  refine Writes.quiet_bind (Quiet.setContext _) fun _ => hdot.bind (k := fun _ => _) ?_
  exact Writes.quiet_bind (Quiet.setContext _) fun _ => hp.bind_quiet (Quiet.setContext _)

theorem writes_index {object property computed : Value} (hobject : t.get? "object" = some object)
    (hproperty : t.get? "property" = some property) (hcomputed : t.get? "computed" = some computed)
    (hindex : computed.truthy = true) (ho : Writes symbols f (operand w t object false site) cs)
    (hp : Writes symbols f (w .plain property site) ds) :
    Writes symbols f (Expression.member w t site) (cs ++ '[' :: (ds ++ [']'])) := by
  have hopen : Writes symbols f (formatted site.buffer site.type "[" "left-bracket") ['['] := by
    rw [hsite.buffer]
    exact writes_formatted hf htype "[" "left-bracket" (by decide) (by decide)
  have hclose : Writes symbols f (formatted site.buffer site.type "]" "right-bracket") [']'] := by
    rw [hsite.buffer]
    exact writes_formatted hf htype "]" "right-bracket" (by decide) (by decide)
  unfold Expression.member
  simp only [field_eq hobject, field_eq hproperty, field_eq hcomputed, pure_bind, hindex,
    hsite.frame]
  rw [if_pos trivial]
  refine Writes.quiet_bind (Quiet.setContext _) fun _ => ho.bind (k := fun _ => _) ?_
  refine Writes.quiet_bind (Quiet.setContext _) fun _ => hopen.bind (k := fun _ => _) ?_
  refine Writes.quiet_bind Quiet.get fun s => Writes.quiet_bind (Quiet.setContext _) fun _ => ?_
  exact hp.bind (k := fun _ => _) (Writes.quiet_bind (Quiet.setContext _) fun _ => hclose)

end Forms

omit hf in
theorem exists_texts (parts : List (Value × Expr)) (hparts : ∀ p ∈ parts, Denotes A p.1 p.2)
    (h : ∀ p ∈ parts, IsWritten symbols f A p.1 p.2.level p.2 (· .plain p.1)) :
    ∃ texts : List ((Value × Expr) × List Char), texts.map (·.1) = parts ∧
      (∀ q ∈ texts, Spells A 14 q.2 q.1.2) ∧
      ∀ q ∈ texts, ∀ n, q.1.1.height ≤ n → ∀ site : Site, site.AtTop →
        Writes symbols f (walk n .plain q.1.1 site) q.2 := by
  induction parts with
  | nil => exact ⟨[], rfl, by simp, by simp⟩
  | cons p parts ih =>
    obtain ⟨texts, hmap, hspells, hwrites⟩ :=
      ih (fun q hq => hparts q (by simp [hq])) (fun q hq => h q (by simp [hq]))
    obtain ⟨cs, hcs, hwrites'⟩ := h p (by simp)
    have hd := hparts p (by simp)
    have hlevel : p.2.level ≤ 14 := by
      obtain ⟨t, ht⟩ := hd.isTree
      rw [ht] at hd
      exact hd.level_le
    refine ⟨(p, cs) :: texts, by simp [hmap], ?_, ?_⟩
    · exact List.forall_mem_cons.2 ⟨hcs.mono hlevel (by decide), hspells⟩
    · exact List.forall_mem_cons.2 ⟨hwrites', hwrites⟩

/-- The code of a node at file level is a text of its expression. -/
theorem Denotes.isWritten (h : Denotes A v e) :
    IsWritten symbols f A v e.level e (· .plain v) := by
  induction h with
  | @ident t name hplaced htype hname hvalid hfree =>
    refine isWritten_node hf (.ident hplaced htype hname hvalid hfree) (.ident hvalid hfree) ?_
    intro n _ site hsite _
    simp only [compileForm, htype]
    exact Expression.writes_identifier hsite hplaced htype hname
  | this hplaced htype =>
    refine isWritten_node hf (.this hplaced htype) .this ?_
    intro n _ site hsite _
    simp only [compileForm, htype]
    exact Expression.writes_this hsite hplaced
  | string hplaced htype hvalue hraw hspelled =>
    obtain ⟨text, htext, hstring⟩ := Expression.literalText?_string hspelled
    refine isWritten_node hf (.string hplaced htype hvalue hraw hspelled) (.string hstring) ?_
    intro n _ site hsite _
    simp only [compileForm, htype, Expression.literal, field_eq hvalue, field_eq hraw, pure_bind,
      htext, ofOption, hsite.buffer]
    exact Writes.textAt text hplaced
  | @unary t op argument e hplaced htype hop hopField hargument h ih =>
    have hd := Denotes.unary hplaced htype hop hopField hargument h
    obtain ⟨a, rfl⟩ := h.isTree
    obtain ⟨b, hneeds, hlevel⟩ := h.needsParens?_other (p := t) (by rw [htype]; rfl) false
    obtain ⟨cs, hcs, hwrites⟩ := ih.operand hf h (k := 2) (by decide)
      ⟨b, hneeds, fun hb => (hlevel hb).2.1 (by rw [htype]; rfl)⟩
    have hform : ∀ n, t.height ≤ n + 1 → ∀ site : Site, site.AtTop → site.type = t.type.name →
        Writes symbols f (compileForm (walk n) t site)
          (op.toList ++ ((if Expression.wordOperators.contains op then [' '] else []) ++ cs)) := by
      intro n hn site hsite _
      have hheight := t.height_get?_lt hargument
      simp only [compileForm, htype]
      exact writes_unary hsite hplaced hopField hargument (hwrites n (by omega) site hsite)
    have hword : ∀ op ∈ ["!", "~", "typeof", "void", "delete"],
        op ∈ ["delete", "void", "typeof"] ∧ Expression.wordOperators.contains op = true ∨
          op ∈ ["!", "~"] ∧ Expression.wordOperators.contains op = false := by
      decide
    rcases hword op hop with ⟨hop', hcontains⟩ | ⟨hop', hcontains⟩
    · rw [hcontains] at hform
      exact isWritten_node hf hd (hcs.unaryWord hop') hform
    · rw [hcontains] at hform
      exact isWritten_node hf hd (hcs.unaryMark hop') hform
  | @binary t op left right l r hop htype hopField hleft hright hl hr ihl ihr =>
    have hd := Denotes.binary hop htype hopField hleft hright hl hr
    obtain ⟨a, rfl⟩ := hl.isTree
    obtain ⟨b, rfl⟩ := hr.isTree
    obtain ⟨hmem, -, hlow, hhigh, -⟩ := operatorLevel_spec op hop
    obtain ⟨k, hk⟩ : ∃ k, operatorLevel op = k + 1 := ⟨operatorLevel op - 1, by omega⟩
    have hlevel : (Expr.binary op l r).level = k + 1 := hk
    rw [hk] at hmem
    obtain ⟨cs, hcs, hwrites⟩ := ihl.operand hf hl (k := k + 1) (by omega)
      (by simpa [hk] using hl.needsParens?_binary hop htype hopField false)
    obtain ⟨ds, hds, hwrites'⟩ := ihr.operand hf hr (k := k) (by omega)
      (by simpa [hk] using hr.needsParens?_binary hop htype hopField true)
    rw [hlevel]
    refine isWritten_node hf hd (hcs.binary hmem hds) ?_
    intro n hn site hsite hsiteType
    have hheight := t.height_get?_lt hleft
    have hheight' := t.height_get?_lt hright
    have hcompile : compileForm (walk n) t = Expression.binary (walk n) t := by
      rcases binaryType_cases op with hbinary | hlogical
      · simp only [compileForm, htype, hbinary]
      · simp only [compileForm, htype, hlogical]
    rw [hcompile]
    have hform := writes_binary hf hsite (hsiteType ▸ hd.type_mem) hopField hleft hright
      (hwrites n (by omega) site hsite) (hwrites' n (by omega) site hsite)
    simpa using hform
  | @call t callee c parts htype hcallee harguments hc hparts ihc ihparts =>
    have hd := Denotes.call parts htype hcallee harguments hc hparts
    obtain ⟨cs, hcs, hwrites⟩ := ihc.base hf hc (p := t) (by rw [htype]; decide)
    obtain ⟨texts, rfl, hspells, hwrites'⟩ := exists_texts parts hparts ihparts
    have hcall := hcs.call (texts.map fun q => (q.2, q.1.2)) fun p hp => by
      obtain ⟨q, hq, rfl⟩ := List.mem_map.1 hp
      exact hspells q hq
    simp only [List.map_map, Function.comp_def] at hcall harguments hd ⊢
    refine isWritten_node hf hd hcall ?_
    intro n hn site hsite hsiteType
    have hheight := t.height_get?_lt hcallee
    have hmem : site.type ∈ Format.operatorTypes := hsiteType ▸ hd.type_mem
    have hparts : ∀ p ∈ texts.map (fun q => (q.1.1, q.2)), ∀ site : Site, site.AtTop →
        Writes symbols f (walk n .plain p.1 site) p.2 := by
      intro p hp site hsite
      obtain ⟨q, hq, rfl⟩ := List.mem_map.1 hp
      have hitem := t.height_item_lt harguments (List.mem_map.2 ⟨q, hq, rfl⟩)
      exact hwrites' q hq n (by omega) site hsite
    have hlist := writes_separated hf hmem n _ hparts hsite rfl
    simp only [List.map_map, Function.comp_def] at hlist
    simp only [compileForm, htype]
    refine writes_call hf hsite hmem hcallee harguments ?_ (hwrites n (by omega) site hsite) hlist
    intro hnone
    rw [List.map_eq_nil_iff.1 hnone]
    rfl
  | @member t p object computed o name htype hobject hcomputed hplain hproperty hplaced hptype hname
      hvalid ho ih =>
      have hd := Denotes.member htype hobject hcomputed hplain hproperty hplaced hptype
        hname hvalid ho
      obtain ⟨cs, hcs, hwrites⟩ := ih.base hf ho (p := t) (by rw [htype]; decide)
      refine isWritten_node hf hd (hcs.member hvalid) ?_
      intro n hn site hsite hsiteType
      have hheight := t.height_get?_lt hobject
      have hheight' := t.height_get?_lt hproperty
      have hpos := Value.height_tree_pos p
      obtain ⟨m, rfl⟩ : ∃ m, n = m + 1 := ⟨n - 1, by omega⟩
      have hpname : Writes symbols f (walk (m + 1) .plain (.tree p) site) name.toList := by
        refine writes_enclose hf (by rw [layoutType, hptype]; decide) hsite.buffer ?_
        simp only [compileAs, compileForm, hptype]
        exact Expression.writes_identifier ⟨hsite.frame, hsite.buffer⟩ hplaced hptype hname
      simp only [compileForm, htype]
      exact writes_member hsite hobject hproperty hcomputed hplain
        (hwrites (m + 1) (by omega) site hsite) hpname
  | @index t object property computed o p htype hobject hcomputed hindex hproperty ho hp iho ihp =>
    have hd := Denotes.index htype hobject hcomputed hindex hproperty ho hp
    obtain ⟨c, rfl⟩ := hp.isTree
    obtain ⟨cs, hcs, hwrites⟩ := iho.base hf ho (p := t) (by rw [htype]; decide)
    obtain ⟨ds, hds, hwrites'⟩ := ihp
    refine isWritten_node hf hd (hcs.index hds (Nat.le_trans hp.level_le (by decide))) ?_
    intro n hn site hsite hsiteType
    have hheight := t.height_get?_lt hobject
    have hheight' := t.height_get?_lt hproperty
    simp only [compileForm, htype]
    exact writes_index hf hsite (hsiteType ▸ hd.type_mem) hobject hproperty hcomputed hindex
      (hwrites n (by omega) site hsite) (hwrites' n (by omega) site hsite)
  | @assign t op left right l r htype hop hopField hleft hright htarget hl hr ihl ihr =>
    have hd := Denotes.assign htype hop hopField hleft hright htarget hl hr
    have hplain : left.isNode .dereference = false := by
      cases hl <;> simp_all [Value.isNode, Expr.isTarget]
    obtain ⟨a, rfl⟩ := hl.isTree
    obtain ⟨c, rfl⟩ := hr.isTree
    obtain ⟨b, hneeds, -⟩ := hl.needsParens?_other (p := t) (by rw [htype]; rfl) false
    obtain ⟨b', hneeds', -⟩ := hr.needsParens?_other (p := t) (by rw [htype]; rfl) true
    have hsimple := Expr.level_le_of_isTarget htarget
    obtain ⟨cs, hcs, hwrites⟩ := ihl.operand hf hl (k := 1) (by decide) ⟨b, hneeds,
      fun _ => hsimple⟩
    obtain ⟨ds, hds, hwrites'⟩ := ihr.operand hf hr (k := 14) (by decide)
      ⟨b', hneeds', fun _ => hr.level_le⟩
    refine isWritten_node hf hd (hcs.assign hop hds) ?_
    intro n hn site hsite hsiteType
    have hheight := t.height_get?_lt hleft
    have hheight' := t.height_get?_lt hright
    simp only [compileForm, htype]
    have hform := writes_assignment hf hsite (hsiteType ▸ hd.type_mem) hopField hleft hright hplain
      (hwrites n (by omega) site hsite) (hwrites' n (by omega) site hsite)
    simpa using hform
  | @conditional t test consequent alternate c y n htype htest hconsequent halternate
      hsimple hc hy hn ihc ihy ihn =>
      have hd := Denotes.conditional htype htest hconsequent halternate hsimple hc hy hn
      obtain ⟨a, rfl⟩ := hc.isTree
      obtain ⟨d, rfl⟩ := hy.isTree
      obtain ⟨d', rfl⟩ := hn.isTree
      obtain ⟨b, hneeds, hlevel⟩ := hc.needsParens?_other (p := t) (by rw [htype]; rfl) false
      have htestLevel : b = false → c.level ≤ 12 := fun hb =>
        hc.level_le_of_not_isConditional hsimple ((hlevel hb).2.2 (by rw [htype]; rfl))
      obtain ⟨cs, hcs, hwrites⟩ := ihc.operand hf hc (k := 12) (by decide) ⟨b, hneeds, htestLevel⟩
      obtain ⟨ds, hds, hwritesYes⟩ := ihy
      obtain ⟨ds', hds', hwritesNo⟩ := ihn
      refine isWritten_node hf hd (hcs.conditional (hds.mono hy.level_le (by decide))
        (hds'.mono hn.level_le (by decide))) ?_
      intro n hn site hsite hsiteType
      have hheightTest := t.height_get?_lt htest
      have hheightYes := t.height_get?_lt hconsequent
      have hheightNo := t.height_get?_lt halternate
      simp only [compileForm, htype]
      have hform := writes_conditional hf hsite (hsiteType ▸ hd.type_mem) htest
        hconsequent halternate
        (hwrites n (by omega) site hsite) (hwritesYes n (by omega) site hsite)
        (hwritesNo n (by omega) site hsite)
      simpa using hform

end

end ObjectiveJ
