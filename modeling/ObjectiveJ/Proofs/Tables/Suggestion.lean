import ObjectiveJ.Proofs.Tables.Session

/-!
# Suggestions

A misspelled name is recognized by its form in small letters. For classes, protocols and types there
are tables of the names that have such a form, and a later name takes the place of an earlier one.
All units keep these tables in step with what is registered (`Symbols.Spelled`), so in a session a
name that is not known has a suggestion exactly if a known name differs from it in case only
(`Compiler.session_suggestion_exact`).
-/

namespace ObjectiveJ

open Gen Symbols

/-! ### Spellings -/

/-- A table has a known name for each form of a known name. -/
structure Spells (t : Table String String) (K : String → Prop) : Prop where
  known : ∀ {form name}, t.get? form = some name → K name ∧ Text.lower name = form
  found : ∀ {name}, K name → (t.get? (Text.lower name)).isSome = true

namespace Spells

variable {t : Table String String} {K K' : String → Prop}

theorem set {name : String} (h : Spells t K) (hK : ∀ n, K' n ↔ K n ∨ n = name) :
    Spells (t.set (Text.lower name) name) K' where
  known {form n} hget := by
    by_cases hform : form = Text.lower name
    · subst hform
      obtain rfl : name = n := Option.mem_unique (t.get?_set_self ..) hget
      exact ⟨(hK _).2 (.inr rfl), rfl⟩
    · rw [t.get?_set_ne hform] at hget
      exact ⟨(hK n).2 (.inl (h.known hget).1), (h.known hget).2⟩
  found {n} hn := by
    by_cases hform : Text.lower n = Text.lower name
    · rw [hform, t.get?_set_self]
      rfl
    · rw [t.get?_set_ne hform]
      exact h.found (((hK n).1 hn).resolve_right fun heq => hform (heq ▸ rfl))

theorem congr (h : Spells t K) (hK : ∀ n, K' n ↔ K n) : Spells t K' :=
  ⟨fun hget => ⟨(hK _).2 (h.known hget).1, (h.known hget).2⟩, fun hn => h.found ((hK _).1 hn)⟩

theorem foldl (h : Spells t K) (names : List String) :
    Spells (names.foldl (fun t name => t.set (Text.lower name) name) t) fun n => K n ∨
    n ∈ names := by
  induction names generalizing t K with
  | nil => exact h.congr fun n => by simp
  | cons name rest ih =>
    refine (ih (h.set fun _ => Iff.rfl)).congr fun n => ?_
    rw [List.mem_cons, or_assoc]

theorem empty : Spells {} fun _ => False := ⟨nofun, nofun⟩

theorem spellings (names : List String) : Spells (Symbols.spellings names) (· ∈ names) :=
  (empty.foldl names).congr fun n => by simp

end Spells

theorem Value.text?_eq_some {v : Value} {n : String} : v.text? = some n ↔
    v.key? = some (.text n) := by
  constructor
  · intro h
    unfold text? at h
    split at h
    · cases h
      rfl
    · cases h
  · intro h
    rw [key?_eq_text h]
    rfl

/-- A name is added to a table of names, and its spelling if it is a text. -/
theorem Spells.enter {α : Type} {t : NameTable α} {spellings : Table String String}
    (h : Spells spellings fun n => (t.get? (.text n)).isSome = true) {name : Value} {key : Key}
    (hkey : name.key? = some key) (a : α) :
    Spells (match name.text? with
      | some n => spellings.set (Text.lower n) n
      | none => spellings) fun n => ((t.set key name a).get? (.text n)).isSome = true := by
  have hK (n : String) : ((t.set key name a).get? (.text n)).isSome = true ↔
      (t.get? (.text n)).isSome = true ∨ name.text? = some n := by
    rw [Value.text?_eq_some, hkey, Option.some.injEq]
    by_cases hn : .text n = key
    · simp [hn]
    · rw [t.get?_set_ne hn, or_iff_left (Ne.symm hn)]
  split
  · rename_i htext
    exact h.set fun n => by rw [hK, htext, Option.some.injEq, eq_comm (a := n)]
  · rename_i htext
    exact h.congr fun n => by rw [hK, htext, or_iff_left nofun]

/-! ### Names that are known -/

namespace Symbols

variable {s s' : Symbols} {id : ClassId} {c : ClassDef} {key : Key}

/-- A class or a category that is registered has a name. -/
def Calls (s : Symbols) (name : String) : Prop :=
  ∃ key id, s.classes.get? key = some id ∧ (s.class? id).bind (·.name.text?) = some name

/-- A name is that of a class, a protocol, a type definition or a predefined type. A class is known
by its name, under which it is registered, and not by the keys of its categories. -/
def Knows (s : Symbols) (name : String) : Prop :=
  (s.Calls name ∧ (s.classes.get? (.text name)).isSome = true) ∨
    (s.protocols.get? (.text name)).isSome = true ∨ (s.typedefs.get? (.text name)).isSome = true ∨
    name ∈ Predefined.types

/-- The spellings are those of what is registered. Each class has its own key, and the name of each
class or category is that of a class. -/
structure Spelled (s : Symbols) : Prop where
  key : ∀ {key id}, s.classes.get? key = some id →
    ∃ c, s.class? id = some c ∧ c.registeredName.key? = some key
  stub : ∀ {id c}, s.class? id = some c → c.isStub = true → c.category.truthy = false
  called : ∀ {name}, s.Calls name → (s.classes.get? (.text name)).isSome = true
  classes : Spells s.classSpellings s.Calls
  protocols : Spells s.protocolSpellings fun n => (s.protocols.get? (.text n)).isSome = true
  typedefs : Spells s.typedefSpellings fun n => (s.typedefs.get? (.text n)).isSome = true

/-- A class may be registered: if it is a category, its class is registered and it is not. -/
structure Takes (s : Symbols) (c : ClassDef) : Prop where
  base : c.category.truthy = true → ∀ name, c.name.text? = some name →
    (s.classes.get? (.text name)).isSome = true
  free : c.category.truthy = true → ∀ key, c.registeredName.key? = some key →
  s.classes.get? key = none

structure Ready (s : Symbols) (id : ClassId) : Prop extends s.Spelled where
  takes : ∀ {c}, s.class? id = some c → s.Takes c

theorem Spelled.empty : ({} : Symbols).Spelled where
  key := nofun
  stub := nofun
  called := nofun
  classes := Spells.empty.congr fun _ => ⟨nofun, nofun⟩
  protocols := Spells.empty.congr fun _ => ⟨nofun, nofun⟩
  typedefs := Spells.empty.congr fun _ => ⟨nofun, nofun⟩

/-! ### Changes of definitions -/

theorem calls_congr (hclasses : s'.classes = s.classes)
    (h : ∀ {key id}, s.classes.get? key = some id →
    (s'.class? id).bind (·.name.text?) = (s.class? id).bind (·.name.text?)) (name : String) :
    s'.Calls name ↔ s.Calls name := by
  unfold Calls
  rw [hclasses]
  constructor
  · rintro ⟨key, id, hget, hname⟩
    exact ⟨key, id, hget, h hget ▸ hname⟩
  · rintro ⟨key, id, hget, hname⟩
    exact ⟨key, id, hget, (h hget).trans hname⟩

/-- The definitions that are registered keep their names, and the new ones are no stubs of
categories. -/
theorem Spelled.define (hs : s.Spelled) (hstore : s' = { s with store := s'.store })
    (hold : ∀ {id c}, s.class? id = some c → ∃ d, s'.class? id = some d ∧ bare d = bare c)
    (hnew : ∀ {id c}, s'.class? id = some c → c.isStub = true → c.category.truthy = false) :
    s'.Spelled := by
  have hclasses : s'.classes = s.classes := by rw [hstore]
  have hcalls := calls_congr hclasses fun {key id} hget => by
    obtain ⟨c, hc, _⟩ := hs.key hget
    obtain ⟨d, hd, hbare⟩ := hold hc
    rw [hc, hd]
    exact congrArg (·.name.text?) hbare
  refine ⟨fun hget => ?_, hnew, fun h => ?_, ?_, ?_, ?_⟩
  · obtain ⟨c, hc, hkey⟩ := hs.key (hclasses ▸ hget)
    obtain ⟨d, hd, hbare⟩ := hold hc
    exact ⟨d, hd, (congrArg (·.registeredName.key?) hbare).trans hkey⟩
  · rw [hclasses]
    exact hs.called ((hcalls _).1 h)
  · rw [hstore]
    exact hs.classes.congr (hstore ▸ hcalls)
  · rw [hstore]
    exact hs.protocols
  · rw [hstore]
    exact hs.typedefs

theorem Spelled.revise (hs : s.Spelled) (hstore : s' = { s with store := s'.store })
    (h : Revises s s') : s'.Spelled := by
  refine hs.define hstore (fun hc => ?_) fun hc hstub => ?_
  · obtain ⟨d, hd, hbare⟩ := h.symm.exists_class hc
    exact ⟨d, hd, hbare.symm⟩
  · obtain ⟨d, hd, hbare⟩ := h.exists_class hc
    have hdstub : d.isStub = true := (congrArg ClassDef.isStub hbare).symm.trans hstub
    exact (congrArg (·.category.truthy) hbare).trans (hs.stub hd hdstub)

theorem Spelled.new (hs : s.Spelled) {d : Definition}
    (hd : ∀ c, d = .classDef c → c.isStub = true → c.category.truthy = false) :
    (s.new d).2.Spelled := by
  refine hs.define rfl (fun hc => ⟨_, class?_new d hc, rfl⟩) fun hc hstub => ?_
  rcases class?_new_cases hc with hc | ⟨_, heq⟩
  · exact hs.stub hc hstub
  · exact hd _ heq hstub

theorem Spelled.modifyClass (hs : s.Spelled) {g : ClassDef → ClassDef}
    (hg : ∀ c, bare (g c) = bare c) : (s.modifyClass id g).Spelled :=
  hs.revise rfl (revises_modifyClass hg)

theorem Spelled.addMethod (hs : s.Spelled) (m : Method) (kind : MethodKind) :
    (s.addMethod id m kind).Spelled := by
  have hown : (s.modifyClass id (·.mapMethods kind (·.set m.key m))).Spelled :=
    hs.modifyClass fun c => bare_mapMethods c kind _
  unfold Symbols.addMethod
  dsimp only
  split
  · exact hown.modifyClass fun c => bare_mapMethods c kind _
  · exact hown

theorem Spelled.newClass (hs : s.Spelled) (hstub : c.isStub = true → c.category.truthy = false)
    (hc : s.Takes c) : (s.new (.classDef c)).2.Ready s.store.size := by
  refine ⟨hs.new fun d hd => ?_, fun {d} hd => ?_⟩
  · cases hd
    exact hstub
  · rw [class?, definition?_new, if_pos rfl] at hd
    obtain rfl : c = d := Option.some.inj hd
    exact ⟨hc.base, hc.free⟩

theorem Ready.modifyClass (hs : s.Ready id) {other : ClassId} {g : ClassDef → ClassDef}
    (hg : ∀ c, bare (g c) = bare c) : (s.modifyClass other g).Ready id := by
  have h : Revises s (s.modifyClass other g) := revises_modifyClass hg
  refine ⟨hs.toSpelled.revise rfl h, fun {c} hc => ?_⟩
  obtain ⟨d, hd, hbare⟩ := h.exists_class hc
  have htakes : s.Takes (bare d) := ⟨(hs.takes hd).base, (hs.takes hd).free⟩
  rw [← hbare] at htakes
  exact ⟨htakes.base, htakes.free⟩

/-! ### Registrations -/

/-- A class is entered under a key that is free or that of a stub, unless it is a category. -/
theorem Ready.enterClass (hs : s.Ready id) (hc : s.class? id = some c)
    (hkey : c.registeredName.key? = some key)
    (hfree : ∀ {other known}, s.classes.get? key = some other → s.class? other = some known →
      known.isStub = true ∧ c.category.truthy = false) : (s.enterClass key id c).Holds Spelled := by
  let s' : Symbols := { s with classes := s.classes.set key c.registeredName id }
  have hself : s'.classes.get? key = some id := s.classes.get?_set_self ..
  have hother {k : Key} (hk : k ≠ key) : s'.classes.get? k = s.classes.get? k :=
    s.classes.get?_set_ne hk ..
  have hname : (s'.class? id).bind (·.name.text?) = c.name.text? := by
    change (s.class? id).bind _ = _
    rw [hc, Option.bind_some]
  -- the name of a stub that is replaced is that of the class
  have hcalls (n : String) : s'.Calls n ↔ s.Calls n ∨ c.name.text? = some n := by
    constructor
    · rintro ⟨k, other, hget, hn⟩
      by_cases hk : k = key
      · subst hk
        obtain rfl := Option.mem_unique hself hget
        exact .inr (hname.symm.trans hn)
      · exact .inl ⟨k, other, (hother hk).symm.trans hget, hn⟩
    · rintro (⟨k, other, hget, hn⟩ | hn)
      · by_cases hk : k = key
        · subst hk
          obtain ⟨known, hknown, hknownKey⟩ := hs.key hget
          obtain ⟨hstub, hcategory⟩ := hfree hget hknown
          rw [hknown, Option.bind_some, Value.text?_eq_some] at hn
          rw [ClassDef.registeredName, hs.stub hknown hstub] at hknownKey
          rw [ClassDef.registeredName, hcategory] at hkey
          refine ⟨k, id, hself, hname.trans (Value.text?_eq_some.2 ?_)⟩
          exact hkey.trans (hknownKey.symm.trans hn)
        · exact ⟨k, other, (hother hk).trans hget, hn⟩
      · exact ⟨key, id, hself, hname.trans hn⟩
  have hkept (k : Key) (h : (s.classes.get? k).isSome = true) :
      (s'.classes.get? k).isSome = true := by
    by_cases hk : k = key
    · rw [hk, hself]
      rfl
    · rwa [hother hk]
  have hkeys {k : Key} {other : ClassId} (hget : s'.classes.get? k = some other) :
      ∃ c, s'.class? other = some c ∧ c.registeredName.key? = some k := by
    by_cases hk : k = key
    · subst hk
      obtain rfl := Option.mem_unique hself hget
      exact ⟨c, hc, hkey⟩
    · exact hs.key ((hother hk).symm.trans hget)
  have hcalled {n : String} (h : s'.Calls n) : (s'.classes.get? (.text n)).isSome = true := by
    rcases (hcalls n).1 h with h | h
    · exact hkept _ (hs.called h)
    · cases hcategory : c.category.truthy with
      | true => exact hkept _ ((hs.takes hc).base hcategory n h)
      | false =>
        rw [ClassDef.registeredName, hcategory] at hkey
        obtain rfl : key = .text n :=
          Option.mem_unique hkey (Value.text?_eq_some.1 h)
        rw [hself]
        rfl
  unfold Symbols.enterClass
  split
  · rename_i name htext
    refine { hs with
      key := hkeys
      called := hcalled
      classes := hs.classes.set fun n => (hcalls n).trans ?_ }
    rw [htext, Option.some.injEq, eq_comm (a := n)]
  · rename_i htext
    refine { hs with
      key := hkeys
      called := hcalled
      classes := hs.classes.congr fun n => (hcalls n).trans ?_ }
    rw [htext, or_iff_left (by rintro ⟨⟩)]

theorem Ready.registerClass (hs : s.Ready id) : (s.registerClass id).Holds Spelled := by
  unfold Symbols.registerClass
  split
  · exact hs.toSpelled
  rename_i c hc
  split
  · exact hs.toSpelled
  rename_i key hkey
  split
  · rename_i hlookup
    refine hs.enterClass hc hkey fun hget hknown => ?_
    rw [lookupClass, classId?, hget, Option.bind_some, hknown] at hlookup
    cases hlookup
  · rename_i existing hlookup
    split
    · exact hs.toSpelled
    split
    · rename_i hstub
      refine hs.enterClass hc hkey fun {other known} hget hknown => ?_
      rw [lookupClass, classId?, hget, Option.bind_some, hknown] at hlookup
      refine ⟨Option.some.inj hlookup ▸ hstub, Bool.eq_false_iff.2 fun hcategory => ?_⟩
      rw [(hs.takes hc).free hcategory _ hkey] at hget
      cases hget
    · trivial

theorem Spelled.registerProtocol (hs : s.Spelled) (id : ProtocolId) :
    (s.registerProtocol id).Holds Spelled := by
  unfold Symbols.registerProtocol
  split
  · exact hs
  rename_i p hp
  split
  · exact hs
  rename_i key hkey
  split
  · trivial
  have henter := hs.protocols.enter hkey id
  cases htext : p.name.text?
  all_goals
    rw [htext] at henter
    exact { hs with protocols := henter }

theorem Spelled.registerTypedef (hs : s.Spelled) (t : Typedef) :
    (s.registerTypedef t).Holds Spelled := by
  unfold Symbols.registerTypedef
  split
  · exact hs
  rename_i key hkey
  have henter := hs.typedefs.enter hkey t
  dsimp only
  cases htext : t.name.text?
  all_goals
    rw [htext] at henter
    exact { hs with typedefs := henter }

end Symbols

/-! ### Declarations -/

section Declarations

variable {s₀ : Symbols} {t : Tree} {name : Value} {walk : Walker} {site : Site}

/-- If a declaration is that of a category, there is none of this name. -/
def Symbols.HasNoCategory (s : Symbols) (t : Tree) (name : Value) : Prop :=
  ∀ category shown, t.get? "category" = some category → category.isNull = false →
    category.part? "name" = some shown →
    s.lookupClass (.text (name.display ++ "+" ++ shown.display)) = none

/-- The check for a new name refuses a second category of a name. -/
theorem AnswersIf.isNewCategory (frame : FrameId) (htype : t.type = .classDeclaration)
    {identifier : Value} (hname : identifier.part? "name" = some name) :
    AnswersIf (· = s₀) true (s₀.HasNoCategory t name) (Check.isUnique frame t identifier) := by
  by_cases hnew : s₀.HasNoCategory t name
  · exact (keeps_checks.judge.isUnique ..).mono (fun _ h => h) (fun _ _ h => ⟨h, fun _ => hnew⟩)
      fun _ h => h
  simp only [HasNoCategory, Classical.not_forall] at hnew
  obtain ⟨category, shown, hcategory, hnull, hshown, hfound⟩ := hnew
  have hclass (known : Option ClassDef) : Leads (· = s₀) (Check.isUniqueClass t name known)
      (fun answer s => s = s₀ ∧ answer = some false) (· = s₀) := by
    refine Leads.ofOption_bind (fun _ h => h) fun c hc => ?_
    obtain rfl := Option.mem_unique hcategory hc
    dsimp only
    rw [if_pos (by rw [hnull]; rfl)]
    split
    · exact Leads.step (fun _ h => h) (keeps_checks.error ..) fun _ =>
        Leads.pure fun _ h => ⟨h, rfl⟩
    refine Leads.ofOption_bind (fun _ h => h) fun x hx => Leads.get fun s hs => ?_
    obtain rfl := Option.mem_unique hshown hx
    rw [hs]
    split
    · exact Leads.bind (Q := fun _ _ => False) (Leads.fatalAt (fun _ h => h) ..) fun _ =>
        ⟨fun _ h => h.elim⟩
    · rename_i hnone
      exact absurd (Option.eq_none_iff_forall_ne_some.2 hnone) hfound
  refine Leads.ofOption_bind (fun _ h => h) fun n hn => ?_
  obtain rfl := Option.mem_unique hname hn
  refine Leads.ofOption_bind (fun _ h => h) fun key _ => Leads.get fun s hs => ?_
  dsimp only
  rw [if_pos htype, hs]
  refine Leads.bind (hclass _) fun answer => Leads.fixed fun u hu => ?_
  obtain ⟨rfl, rfl⟩ := hu
  exact Leads.pure fun _ h => ⟨h, nofun⟩

theorem newClass_ready (h₀ : s₀.Spelled) (htype : t.type = .classDeclaration)
    (hnew : s₀.HasNoCategory t name) :
    Leads (· = s₀) (Declaration.newClass t name) (fun id s => s.Ready id) Spelled := by
  have hspelled (s : Symbols) (hs : s = s₀) : s.Spelled := hs ▸ h₀
  have hready {c : ClassDef} (hnode : c.node = .tree t) (hc : s₀.Takes c) :
      (s₀.new (.classDef c)).2.Ready s₀.store.size := by
    have hstub : c.isStub = false := by simp [ClassDef.isStub, hnode, Value.isNode, htype]
    exact h₀.newClass (fun h => absurd h (by simp [hstub])) hc
  refine Leads.ofOption_bind hspelled fun category hcategory => ?_
  dsimp only
  split
  · exact Leads.step hspelled (keeps_checks.judge.superclass? t name) fun up =>
      .new (hready rfl ⟨by rintro ⟨⟩, by rintro ⟨⟩⟩)
  · rename_i hnull
    refine Leads.get fun s hs => ?_
    rw [hs]
    refine Leads.ofOption_bind hspelled fun key hkey =>
      Leads.ofOption_bind hspelled fun base hbase => ?_
    refine Leads.ofOption_bind hspelled fun shown hshown =>
      .new (hready rfl ⟨fun _ n hn => ?_, fun h k hk => ?_⟩)
    · obtain rfl : key = .text n := Option.mem_unique hkey (Value.text?_eq_some.1 hn)
      exact Option.isSome_iff_exists.2 ⟨base, hbase⟩
    · rw [ClassDef.registeredName, if_pos h] at hk
      cases hk
      exact classes_get?_eq_none h₀.key
        (hnew category shown hcategory (Bool.eq_false_iff.2 hnull) hshown)

/-- What is spelled as a law, for all programs. -/
abbrev spelledLaw : Law := tableLaw Spelled fun _ => True

theorem spelled_methods : Methods (@Keeps Spelled) where
  toAsks := keeps_checks.judge.toAsks
  ofClass _ kind _ _ _ := (keeps_checks.judge.makeMethod ..).bind fun m =>
    Leads.modifySymbols fun _ hs => hs.addMethod m kind
  ofProtocol _ _ _ _ _ _ := (keeps_checks.judge.makeMethod ..).bind fun _ =>
    Leads.modifySymbols fun _ hs => hs.revise rfl (revises_addProtocolMethod ..)

theorem spelled_members : spelledLaw.Members where
  methods _ := spelled_methods
  setMethods _ _ := Keeps.modify fun _ => rfl

theorem spelled_bodies : spelledLaw.Bodies where
  setMethods _ _ := Keeps.modify fun _ => rfl
  newBody _ _ _ _ _ _ _ hk :=
    (Keeps.modifyGet fun _ => rfl).bind fun id => (hk id).allows fun h => h
  optional _ _ := Keeps.modifyFrames _

theorem newProtocol_spelled (t : Tree) (name : Value) (incorporated : List ProtocolId) :
    Keeps Spelled (Declaration.newProtocol t name incorporated) := by
  refine Leads.bind (Q := fun _ => Spelled) ⟨fun s hs => ?_⟩ fun id => ?_
  · exact Spelled.new hs nofun
  · exact Leads.bind (Leads.register (fun _ h => h) (fun _ h => h) fun _ hs =>
      hs.registerProtocol id) fun _ => keeps_checks.pure _

theorem announceName_spelled (t : Tree) (frame : FrameId) (identifier name : Value) :
    Keeps Spelled (Statement.announceName t frame identifier name) := by
  unfold Statement.announceName
  split
  · refine Leads.get fun s hs => ?_
    have hready := hs.newClass (c := { name, node := identifier }) (fun _ => rfl) ⟨nofun, nofun⟩
    refine Leads.bind (Q := fun _ s' => s' = (s.symbols.new (.classDef _)).2)
      ⟨fun _ _ => rfl⟩ fun _ => ?_
    refine Leads.bind (Leads.register (fun s h => h ▸ hready.toSpelled) (fun _ h => h)
      fun s h => ?_) fun _ => keeps_checks.pure _
    rw [h]
    exact hready.registerClass
  · exact Keeps.look fun s => (keeps_checks.key _).bind fun _ =>
      (keeps_checks.declare ..).bind fun _ =>
      keeps_checks.pure _
  · exact Leads.bind (Leads.register (fun _ h => h) (fun _ h => h) fun _ hs => hs.registerTypedef _)
      fun _ => keeps_checks.pure _

theorem spelled_registers : spelledLaw.Registers where
  methods _ := spelled_methods
  newProtocol _ := newProtocol_spelled
  announceName f t := announceName_spelled t f

theorem ready_revises (id : ClassId) : (tableLaw (·.Ready id) fun _ => True).Revises where
  modifyClass _ _ _ hg := Leads.modifySymbols fun _ hs => hs.modifyClass hg

theorem classDeclaration_spelled (hw : spelledLaw.Walks walk) (ht : spelledLaw.Owns t)
    (htype : t.type = .classDeclaration) :
    Keeps Spelled (Declaration.classDeclaration walk t site) := by
  have hrevise {α : Type} {id : ClassId} {m : Gen α} (h : Keeps (·.Ready id) m) :
      Leads (·.Ready id) m (fun _ s => s.Ready id) Spelled :=
    h.mono (fun _ h => h) (fun _ _ h => h) fun _ h => h.toSpelled
  refine classDeclaration_keeps (R := fun id s => s.Ready id) spelled_members hw ht
    (fun _ _ hs => hs.toSpelled) (fun s hs _ name hname => ?_)
    (fun id vs => hrevise ((ready_revises id).addProtocols (f := 0) id vs))
    (fun id ivars => hrevise ((ready_revises id).writeIvars (f := 0) id _ ivars)) fun _ _ hs =>
      hs.registerClass
  exact ⟨_, AnswersIf.isNewCategory site.frame htype hname, newClass_ready hs htype⟩

theorem spelled_runs : spelledLaw.Runs := by
  refine tableLaw_runs ⟨classDeclaration_spelled, fun hw ht _ => ?_, fun keyword _ _ => ?_,
    fun _ => ?_⟩ spelled_methods
  · exact spelled_bodies.protocolDeclaration spelled_registers hw ht
  · exact spelled_registers.announce keyword
  · exact spelled_members.startMethod

end Declarations

/-! ### Sessions -/

namespace Symbols

variable {s : Symbols} {name found : String}

theorem Spelled.suggestion (hs : s.Spelled)
    (h : s.suggestion name [Check.typeSpellings] = some found) :
    s.Knows found ∧ Text.lower found = Text.lower name := by
  obtain ⟨t, ht, hget⟩ := List.exists_of_findSome?_eq_some h
  replace hget := (Option.filter_eq_some_iff.1 hget).1
  simp only [List.mem_append, List.mem_cons, List.not_mem_nil, or_false] at ht
  rcases ht with (rfl | rfl | rfl) | rfl
  · obtain ⟨hknown, hform⟩ := hs.classes.known hget
    exact ⟨.inl ⟨hknown, hs.called hknown⟩, hform⟩
  · exact (hs.protocols.known hget).imp_left fun h => .inr (.inl h)
  · exact (hs.typedefs.known hget).imp_left fun h => .inr (.inr (.inl h))
  · exact ((Spells.spellings Predefined.types).known hget).imp_left fun h => .inr (.inr (.inr h))

theorem Spelled.isSome_suggestion (hs : s.Spelled) (hname : ¬ s.Knows name) {known : String}
    (hknown : s.Knows known) (hform : Text.lower known = Text.lower name) :
    (s.suggestion name [Check.typeSpellings]).isSome = true := by
  have hfound {t : Table String String} {K : String → Prop} (ht : Spells t K) (hK : K known)
      (hnot : ¬ K name) (hmem : t ∈ [s.classSpellings, s.protocolSpellings, s.typedefSpellings] ++
        [Check.typeSpellings]) : (s.suggestion name [Check.typeSpellings]).isSome = true := by
    obtain ⟨found, hget⟩ := Option.isSome_iff_exists.1 (hform ▸ ht.found hK)
    refine List.findSome?_isSome_iff.2 ⟨t, hmem, ?_⟩
    rw [hget, Option.filter_some, if_pos]
    · rfl
    · exact decide_eq_true fun heq => hnot (heq ▸ (ht.known hget).1)
  rcases hknown with ⟨h, -⟩ | h | h | h
  · exact hfound hs.classes h (fun h => hname (.inl ⟨h, hs.called h⟩)) (by simp)
  · exact hfound hs.protocols h (fun h => hname (.inr (.inl h))) (by simp)
  · exact hfound hs.typedefs h (fun h => hname (.inr (.inr (.inl h)))) (by simp)
  · exact hfound (.spellings Predefined.types) h (fun h => hname (.inr (.inr (.inr h))))
      (by simp [Check.typeSpellings])

end Symbols

namespace Compiler

theorem session_spelled (runs : List (Compiler × CompileUnit)) : (session {} runs).Spelled :=
  session_keeps spelled_runs (fun _ _ _ => trivial) (fun _ _ hs => { hs with })
    (fun _ _ _ _ => trivial) .empty

/-- In a session, a name that is not known has a suggestion exactly if a known name differs from it
in case only, and the suggestion is such a name. -/
theorem session_suggestion_exact (runs : List (Compiler × CompileUnit)) (name : String)
    (hname : ¬ (session {} runs).Knows name) :
    (((session {} runs).suggestion name [Check.typeSpellings]).isSome = true ↔
      ∃ known, (session {} runs).Knows known ∧ Text.lower known = Text.lower name) ∧
    ∀ found, (session {} runs).suggestion name [Check.typeSpellings] = some found →
      (session {} runs).Knows found ∧ Text.lower found = Text.lower name := by
  have hs := session_spelled runs
  refine ⟨⟨fun h => ?_, fun ⟨known, hknown, hform⟩ => ?_⟩, fun found => hs.suggestion⟩
  · obtain ⟨found, hfound⟩ := Option.isSome_iff_exists.1 h
    exact ⟨found, hs.suggestion hfound⟩
  · exact hs.isSome_suggestion hname hknown hform

/-- The name of a class in small letters is taken for a misspelling. -/
theorem session_family_suggestion :
    ¬ (session {} [(silent, family)]).Knows "a" ∧ (session {} [(silent, family)]).Knows "A" ∧
      ((session {} [(silent, family)]).suggestion "a" [Check.typeSpellings]).isSome = true := by
  have hA : (session {} [(silent, family)]).Knows "A" :=
    .inl ⟨⟨.text "A", 1, by decide +kernel, by decide +kernel⟩, by decide +kernel⟩
  have ha : ¬ (session {} [(silent, family)]).Knows "a" := by
    rintro (⟨-, h⟩ | h | h | h)
    · exact absurd h (by decide +kernel)
    · exact absurd h (by decide +kernel)
    · exact absurd h (by decide +kernel)
    · exact absurd h (by decide +kernel)
  exact ⟨ha, hA, (session_suggestion_exact _ "a" ha).1.2 ⟨"A", hA, by decide +kernel⟩⟩

end Compiler

end ObjectiveJ
