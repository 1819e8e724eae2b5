import ObjectiveJ.Proofs.Run

/-!
# Sequences of registrations

Classes, protocols and types are registered one after the other, and some registrations are refused.
What a registration does depends on what stands under the key: a stub gives way to a class that is
none, and everything else stays. `Candidate.step_cases` says once what a registration can do. From
that follows what a sequence of them keeps: a class that is no stub stays where it is, and so does a
protocol, whatever is registered later.
-/

namespace ObjectiveJ

/-- Something to be registered. -/
inductive Candidate where
  | classDef (id : ClassId)
  | protocolDef (id : ProtocolId)
  | typedef (t : Typedef)

namespace Symbols

/-- What is registered is in the store. -/
structure IsFiled (s : Symbols) : Prop where
  class_isSome : ∀ {key id}, s.classes.get? key = some id → (s.class? id).isSome = true
  protocol_isSome : ∀ {key id}, s.protocols.get? key = some id → (s.definition? id).isSome = true

/-- What registrations leave in place: all that is registered, but for a stub. -/
structure Grows (s t : Symbols) : Prop where
  store : t.store = s.store
  classes : ∀ {key id c}, s.classes.get? key = some id → s.class? id = some c → c.isStub = false →
    t.classes.get? key = some id
  protocols : ∀ {key id}, s.protocols.get? key = some id → t.protocols.get? key = some id

namespace Grows

variable {s t u : Symbols}

theorem refl (s : Symbols) : s.Grows s := ⟨rfl, fun h _ _ => h, fun h => h⟩

theorem definition? (h : s.Grows t) : t.definition? = s.definition? := by
  funext id
  rw [Symbols.definition?, Symbols.definition?, h.store]

theorem class? (h : s.Grows t) : t.class? = s.class? := by
  funext id
  rw [Symbols.class?, Symbols.class?, h.definition?]

theorem trans (h : s.Grows t) (h' : t.Grows u) : s.Grows u where
  store := h'.store.trans h.store
  classes hget hc hstub := h'.classes (h.classes hget hc hstub) (h.class? ▸ hc) hstub
  protocols hget := h'.protocols (h.protocols hget)

end Grows

end Symbols

namespace Candidate

def register : Candidate → Symbols → Registration
  | classDef id, s => s.registerClass id
  | protocolDef id, s => s.registerProtocol id
  | typedef t, s => s.registerTypedef t

def step (e : Candidate) : Gen Unit := Gen.register e.register

/-- The state after candidates are registered one after the other; those that are refused leave it
as it is. -/
def runAll (candidates : List Candidate) (s : GenState) : GenState :=
  candidates.foldl (fun s e => (e.step.run.run s).2) s

/-- A candidate is in the store and has a text for its name. -/
def IsNamed (s : Symbols) : Candidate → Prop
  | classDef id => ∃ c, s.class? id = some c ∧ c.name.text?.isSome = true
  | protocolDef id => ∃ d, s.definition? id = some d ∧ d.name.text?.isSome = true
  | typedef t => t.name.text?.isSome = true

/-- The name of a candidate is taken: for a class that is no stub, by another one that is none, and
for a protocol by any protocol. -/
def Clashes (s : Symbols) : Candidate → Prop
  | classDef id => ∃ c key other known, s.class? id = some c ∧ c.registeredName.key? = some key ∧
      s.classes.get? key = some other ∧ s.class? other = some known ∧ c.isStub = false ∧
      known.isStub = false
  | protocolDef id => ∃ d key other, s.definition? id = some d ∧ d.name.key? = some key ∧
      s.protocols.get? key = some other
  | typedef _ => False

/-- A candidate is a class that has only been announced. -/
def IsStub (s : Symbols) : Candidate → Prop
  | classDef id => ∃ c, s.class? id = some c ∧ c.isStub = true
  | _ => False

/-- A candidate stands in the tables under its name; for a stub it is enough that a class does. -/
def Stands (s : Symbols) : Candidate → Prop
  | classDef id => ∃ c key, s.class? id = some c ∧ c.registeredName.key? = some key ∧
      (s.classes.get? key = some id ∨ c.isStub = true ∧ (s.classes.get? key).isSome = true)
  | protocolDef id => ∃ d key, s.definition? id = some d ∧ d.name.key? = some key ∧
      s.protocols.get? key = some id
  | typedef t => ∃ key, t.name.key? = some key ∧ s.typedefs.get? key = some t

variable {s t : Symbols} {id : DefinitionId} {key : Key}

theorem IsNamed.grows {e : Candidate} (he : e.IsNamed s) (h : s.Grows t) : e.IsNamed t := by
  cases e with
  | classDef id => rwa [IsNamed, h.class?]
  | protocolDef id => rwa [IsNamed, h.definition?]
  | typedef u => exact he

theorem key?_of_text? {v : Value} (h : v.text?.isSome = true) : ∃ name, v = .str name ∧
    v.text? = some name ∧ v.key? = some (.text name) := by
  unfold Value.text? at h
  split at h
  · exact ⟨_, rfl, rfl, rfl⟩
  · cases h

theorem registeredName_key? {c : ClassDef} (h : c.name.text?.isSome = true) :
    ∃ key, c.registeredName.key? = some key := by
  unfold ClassDef.registeredName
  split
  · exact ⟨_, rfl⟩
  · obtain ⟨name, _, _, hkey⟩ := key?_of_text? h
    exact ⟨_, hkey⟩

/-! ### One registration -/

/-- What a registration can do: it is refused and changes nothing, or the candidate stands in tables
that have grown. A stub leaves every class where it is. -/
structure Outcome (e : Candidate) (s : Symbols) (t : Symbols) : Prop where
  grows : s.Grows t
  filed : t.IsFiled
  stands : e.Stands t
  stub : e.IsStub s → ∀ {key id}, s.classes.get? key = some id → t.classes.get? key = some id

theorem enterClass_outcome (hs : s.IsFiled) {c : ClassDef} (hc : s.class? id = some c)
    (hname : c.name.text?.isSome = true) (hkey : c.registeredName.key? = some key)
    (hfree : ∀ known, s.lookupClass key = some known → known.isStub = true ∧ c.isStub = false) :
    ∃ t, s.enterClass key id c = .done t ∧ (classDef id).Outcome s t := by
  obtain ⟨name, _, htext, _⟩ := key?_of_text? hname
  have hother {k : Key} {other : ClassId} (hget : s.classes.get? k = some other) (hk : k ≠ key) :
      (s.classes.set key c.registeredName id).get? k = some other :=
    (NameTable.get?_set_ne _ hk ..).trans hget
  have hlookup {other : ClassId} {known : ClassDef} (hget : s.classes.get? key = some other)
      (hknown : s.class? other = some known) : s.lookupClass key = some known := by
    rw [Symbols.lookupClass, Symbols.classId?, hget, Option.bind_some, hknown]
  refine ⟨_, by simp only [Symbols.enterClass, htext]; rfl, ?_⟩
  refine ⟨⟨rfl, fun {k other known} hget hknown hstub => ?_, fun h => h⟩, ⟨fun {k j} hget => ?_,
    hs.protocol_isSome⟩, ⟨c, key, hc, hkey, .inl (NameTable.get?_set_self ..)⟩,
    fun hstub {k other} hget => ?_⟩
  · refine hother hget fun hk => ?_
    have := (hfree known (hlookup (hk ▸ hget) hknown)).1
    rw [hstub] at this
    cases this
  · by_cases hk : k = key
    · subst hk
      obtain rfl : id = j := Option.mem_unique (NameTable.get?_set_self ..) hget
      exact Option.isSome_iff_exists.2 ⟨c, hc⟩
    · exact hs.class_isSome ((NameTable.get?_set_ne _ hk ..).symm.trans hget)
  · refine hother hget fun hk => ?_
    obtain ⟨known, hknown⟩ := Option.isSome_iff_exists.1 (hs.class_isSome hget)
    obtain ⟨d, hd, hdstub⟩ := hstub
    obtain rfl := Option.mem_unique hc hd
    rw [(hfree known (hlookup (hk ▸ hget) hknown)).2] at hdstub
    cases hdstub

theorem registerClass_cases (hs : s.IsFiled) (he : (classDef id).IsNamed s) :
    ((classDef id).Clashes s ∧ ∃ f, s.registerClass id = .duplicate f) ∨
      ¬ (classDef id).Clashes s ∧ ∃ t, s.registerClass id = .done t ∧
      (classDef id).Outcome s t := by
  obtain ⟨c, hc, hname⟩ := he
  obtain ⟨key, hkey⟩ := registeredName_key? hname
  have hclash {known : ClassDef} {other : ClassId} (h : (classDef id).Clashes s)
      (hget : s.classes.get? key = some other) (hknown : s.class? other = some known) :
      c.isStub = false ∧ known.isStub = false := by
    obtain ⟨d, k, o, e, hd, hk, ho, he, hstubs⟩ := h
    obtain rfl := Option.mem_unique hc hd
    obtain rfl := Option.mem_unique hkey hk
    obtain rfl := Option.mem_unique hget ho
    obtain rfl := Option.mem_unique hknown he
    exact hstubs
  unfold Symbols.registerClass
  rw [hc]
  dsimp only
  rw [hkey]
  dsimp only
  cases hget : s.classes.get? key with
  | none =>
    have hlookup : s.lookupClass key = none := by
      rw [Symbols.lookupClass, Symbols.classId?, hget, Option.bind_none]
    rw [hlookup]
    refine .inr ⟨?_, enterClass_outcome hs hc hname hkey fun known h => ?_⟩
    · rintro ⟨d, k, o, e, hd, hk, ho, _⟩
      obtain rfl := Option.mem_unique hc hd
      obtain rfl := Option.mem_unique hkey hk
      rw [hget] at ho
      cases ho
    · rw [hlookup] at h
      cases h
  | some other =>
    obtain ⟨known, hknown⟩ := Option.isSome_iff_exists.1 (hs.class_isSome hget)
    have hlookup : s.lookupClass key = some known := by
      rw [Symbols.lookupClass, Symbols.classId?, hget, Option.bind_some, hknown]
    rw [hlookup]
    dsimp only
    cases hstub : c.isStub with
    | true =>
      refine .inr ⟨fun h => ?_, s, rfl, .refl s, hs, ⟨c, key, hc, hkey, .inr ⟨hstub, ?_⟩⟩,
        fun _ _ _ h => h⟩
      · rw [(hclash h hget hknown).1] at hstub
        cases hstub
      · rw [hget]
        rfl
    | false =>
      cases hknownStub : known.isStub with
      | true =>
        refine .inr ⟨fun h => ?_, enterClass_outcome hs hc hname hkey fun d hd => ?_⟩
        · rw [(hclash h hget hknown).2] at hknownStub
          cases hknownStub
        · obtain rfl := Option.mem_unique hlookup hd
          exact ⟨hknownStub, hstub⟩
      | false =>
        exact .inl ⟨⟨c, key, other, known, hc, hkey, hget, hknown, hstub, hknownStub⟩, _, rfl⟩

theorem registerProtocol_cases (hs : s.IsFiled) (he : (protocolDef id).IsNamed s) :
    ((protocolDef id).Clashes s ∧ ∃ f, s.registerProtocol id = .duplicate f) ∨
      ¬ (protocolDef id).Clashes s ∧
        ∃ t, s.registerProtocol id = .done t ∧ (protocolDef id).Outcome s t := by
  obtain ⟨d, hd, hname⟩ := he
  obtain ⟨name, _, htext, hkey⟩ := key?_of_text? hname
  unfold Symbols.registerProtocol
  rw [hd]
  dsimp only
  rw [hkey]
  dsimp only
  cases hget : s.protocols.get? (.text name) with
  | some other =>
    obtain ⟨known, hknown⟩ := Option.isSome_iff_exists.1 (hs.protocol_isSome hget)
    rw [Symbols.lookupProtocol, hget, Option.bind_some, hknown]
    exact .inl ⟨⟨d, .text name, other, hd, hkey, hget⟩, _, rfl⟩
  | none =>
    rw [Symbols.lookupProtocol, hget, Option.bind_none]
    dsimp only
    rw [htext]
    have hother {k : Key} {other : ProtocolId} (h : s.protocols.get? k = some other) :
        (s.protocols.set (.text name) d.name id).get? k = some other := by
      have hne : k ≠ .text name := by
        rintro rfl
        rw [hget] at h
        cases h
      exact (NameTable.get?_set_ne _ hne ..).trans h
    refine .inr ⟨?_, _, rfl, ⟨rfl, fun h _ _ => h, hother⟩, ⟨hs.class_isSome, fun {k j} h => ?_⟩,
      ⟨d, .text name, hd, hkey, NameTable.get?_set_self ..⟩, fun h => h.elim⟩
    · rintro ⟨e, k, o, he, hk, ho⟩
      obtain rfl := Option.mem_unique hd he
      obtain rfl := Option.mem_unique hkey hk
      rw [hget] at ho
      cases ho
    · by_cases hk : k = .text name
      · subst hk
        obtain rfl : id = j := Option.mem_unique (NameTable.get?_set_self ..) h
        exact Option.isSome_iff_exists.2 ⟨d, hd⟩
      · exact hs.protocol_isSome ((NameTable.get?_set_ne _ hk ..).symm.trans h)

theorem registerTypedef_outcome (hs : s.IsFiled) {u : Typedef} (he : (typedef u).IsNamed s) :
    ∃ t, s.registerTypedef u = .done t ∧ (typedef u).Outcome s t := by
  obtain ⟨name, _, htext, hkey⟩ := key?_of_text? he
  unfold Symbols.registerTypedef
  rw [hkey]
  dsimp only
  rw [htext]
  exact ⟨_, rfl, ⟨rfl, fun h _ _ => h, fun h => h⟩, ⟨hs.class_isSome, hs.protocol_isSome⟩,
    ⟨.text name, hkey, NameTable.get?_set_self ..⟩, fun h => h.elim⟩

/-- A registration is refused if the name is taken, and then nothing changes; otherwise the
candidate stands in tables that have grown. -/
theorem step_cases {s : GenState} (hs : s.symbols.IsFiled) {e : Candidate}
    (he : e.IsNamed s.symbols) :
    (e.Clashes s.symbols ∧ ∃ f, e.step.run.run s = (.error (.fatal f), s)) ∨
      ¬ e.Clashes s.symbols ∧ ∃ t, e.step.run.run s = (.ok (), { s with symbols := t }) ∧
        e.Outcome s.symbols t := by
  have hrun : e.step.run.run s = _ := Gen.run_get_bind _ s
  have hrefused {f : Fatal} (h : e.register s.symbols = .duplicate f) :
      e.step.run.run s = (.error (.fatal f), s) := by
    rw [hrun, h]
    rfl
  have hdone {t : Symbols} (h : e.register s.symbols = .done t) :
      e.step.run.run s = (.ok (), { s with symbols := t }) := by
    rw [hrun, h]
    rfl
  cases e with
  | classDef id =>
    rcases registerClass_cases hs he with ⟨hclash, f, hf⟩ | ⟨hclash, t, ht, hout⟩
    · exact .inl ⟨hclash, f, hrefused hf⟩
    · exact .inr ⟨hclash, t, hdone ht, hout⟩
  | protocolDef id =>
    rcases registerProtocol_cases hs he with ⟨hclash, f, hf⟩ | ⟨hclash, t, ht, hout⟩
    · exact .inl ⟨hclash, f, hrefused hf⟩
    · exact .inr ⟨hclash, t, hdone ht, hout⟩
  | typedef u =>
    obtain ⟨t, ht, hout⟩ := registerTypedef_outcome hs he
    exact .inr ⟨fun h => h, t, hdone ht, hout⟩

/-! ### Sequences -/

/-- Tables grow with every registration, and what is registered is in the store. -/
theorem runAll_grows {candidates : List Candidate} {s : GenState} (hs : s.symbols.IsFiled)
    (hnamed : ∀ e ∈ candidates, e.IsNamed s.symbols) :
    s.symbols.Grows (runAll candidates s).symbols ∧ (runAll candidates s).symbols.IsFiled := by
  induction candidates generalizing s with
  | nil => exact ⟨.refl _, hs⟩
  | cons e rest ih =>
    have hrest (x : Candidate) (hx : x ∈ rest) : x.IsNamed s.symbols :=
      hnamed x (.tail _ hx)
    change _ ∧ (runAll rest (e.step.run.run s).2).symbols.IsFiled
    rcases step_cases hs (hnamed e (.head _)) with ⟨_, f, hrun⟩ | ⟨_, t, hrun, hout⟩
    · have hsame : runAll (e :: rest) s = runAll rest s := by
        rw [runAll, List.foldl_cons, hrun, runAll]
      rw [hsame, hrun]
      exact ih hs hrest
    · have hnext : runAll (e :: rest) s = runAll rest { s with symbols := t } := by
        rw [runAll, List.foldl_cons, hrun, runAll]
      rw [hnext, hrun]
      have hgrown := ih (s := { s with symbols := t }) hout.filed
        fun x hx => (hrest x hx).grows hout.grows
      exact ⟨hout.grows.trans hgrown.1, hgrown.2⟩

/-- Whatever has been registered in tables that were empty, a registration is refused exactly if its
name is taken by what it may not replace; then nothing changes, and else it stands in the tables. A
stub takes no key that is occupied. A class that is no stub and a protocol stay where they are,
whatever is registered later. -/
theorem runAll_monotone (start : GenState)
    (hstart : start.symbols = { store := start.symbols.store, nodes := start.symbols.nodes })
    (earlier later : List Candidate) (e : Candidate)
    (hnamed : ∀ x ∈ earlier ++ e :: later, x.IsNamed start.symbols) :
    let s := runAll earlier start
    let t := (e.step.run.run s).2
    let u := runAll later t
    (e.Clashes s.symbols → ∃ f, e.step.run.run s = (.error (.fatal f), s)) ∧
    (¬ e.Clashes s.symbols → e.step.run.run s = (.ok (), t) ∧ e.Stands t.symbols) ∧
    (e.IsStub s.symbols → ∀ key id, s.symbols.classes.get? key = some id →
      t.symbols.classes.get? key = some id) ∧
    (∀ key id c, s.symbols.classes.get? key = some id → s.symbols.class? id = some c →
      c.isStub = false → u.symbols.classes.get? key = some id ∧ u.symbols.class? id = some c) ∧
    ∀ key id, s.symbols.protocols.get? key = some id → u.symbols.protocols.get? key = some id := by
  intro s t u
  have hempty : start.symbols.IsFiled := by
    rw [hstart]
    exact ⟨(by cases ·), (by cases ·)⟩
  have hbefore := runAll_grows hempty fun x hx => hnamed x (List.mem_append_left _ hx)
  have hs : s.symbols.IsFiled := hbefore.2
  have hafter {v : GenState} (hv : s.symbols.Grows v.symbols) (hfiled : v.symbols.IsFiled) :
      s.symbols.Grows (runAll later v).symbols :=
    hv.trans (runAll_grows hfiled fun x hx => (hnamed x (List.mem_append_right _
      (.tail _ hx))).grows (hbefore.1.trans hv)).1
  have he : e.IsNamed s.symbols :=
    (hnamed e (List.mem_append_right _ (.head _))).grows hbefore.1
  rcases step_cases hs he with ⟨hclash, f, hrun⟩ | ⟨hclash, v, hrun, hout⟩
  · have ht : t = s := congrArg Prod.snd hrun
    have hu : s.symbols.Grows u.symbols :=
      (show u = runAll later s from congrArg (runAll later) ht) ▸ hafter (.refl _) hs
    exact ⟨fun _ => ⟨f, hrun⟩, fun h => absurd hclash h, fun _ key id hget => ht ▸ hget,
      fun _ _ _ hget hc hstub => ⟨hu.classes hget hc hstub, hu.class? ▸ hc⟩, fun _ _ =>
      hu.protocols⟩
  · have ht : t = { s with symbols := v } := congrArg Prod.snd hrun
    have hu : s.symbols.Grows u.symbols :=
      (show u = runAll later { s with symbols := v } from congrArg (runAll later) ht) ▸
        hafter (v := { s with symbols := v }) hout.grows hout.filed
    refine ⟨fun h => absurd h hclash, fun _ => ⟨ht ▸ hrun, ?_⟩, fun hstub key id hget => ?_,
      fun _ _ _ hget hc hstub => ⟨hu.classes hget hc hstub, hu.class? ▸ hc⟩, fun _ _ =>
      hu.protocols⟩
    · rw [ht]
      exact hout.stands
    · rw [ht]
      exact hout.stub hstub hget

/-- A generator that knows a stub, two implementations of the class and a protocol, all of one name,
and has registered none of them. -/
def rivals : GenState where
  settings := {}
  diagnostics := {}
  symbols :=
    let node (type : NodeType) : Value := .tree { type, span := {}, fields := [] }
    { store := #[.classDef { name := .str "A", node := node .identifier },
        .classDef { name := .str "A", node := node .classDeclaration },
        .classDef { name := .str "A", node := node .classDeclaration },
        .protocolDef { name := .str "A", node := node .protocolDeclaration }] }

theorem runAll_rivals_monotone :
    (∃ f, (classDef 2).step.run.run (runAll [classDef 0, classDef 1] rivals) =
      (.error (.fatal f), runAll [classDef 0, classDef 1] rivals)) ∧
    (runAll [classDef 0, classDef 1, classDef 2, classDef 0,
      protocolDef 3] rivals).symbols.classes.get? (.text "A") = some 1 := by
  have hnamed : ∀ x ∈ [classDef 0, classDef 1] ++ classDef 2 :: [classDef 0, protocolDef 3],
      x.IsNamed rivals.symbols := by
    simp only [List.cons_append, List.nil_append, List.forall_mem_cons]
    exact ⟨⟨_, rfl, rfl⟩, ⟨_, rfl, rfl⟩, ⟨_, rfl, rfl⟩, ⟨_, rfl, rfl⟩, ⟨_, rfl, rfl⟩, nofun⟩
  obtain ⟨hrefused, _, _, hkept, _⟩ := runAll_monotone rivals rfl [classDef 0, classDef 1]
    [classDef 0, protocolDef 3] (classDef 2) hnamed
  have hone : (runAll [classDef 0, classDef 1] rivals).symbols.classes.get? (.text "A") =
      some 1 := by
    decide +kernel
  exact ⟨hrefused ⟨_, .text "A", 1, _, rfl, rfl, hone, rfl, rfl, rfl⟩,
    (hkept (.text "A") 1 _ hone rfl rfl).1⟩

end Candidate

end ObjectiveJ
