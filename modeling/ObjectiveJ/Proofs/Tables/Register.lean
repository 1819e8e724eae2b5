import ObjectiveJ.Proofs.Tables.Sound

/-!
# Registrations

New definitions and what is registered keep symbol tables sound. A class takes an open name, under
which there is no class or a stub. A protocol or a type takes a name that is free.
-/

namespace ObjectiveJ

variable {c : ClassDef} {p : ProtocolDef}

namespace Symbols

variable {d : Definition}

variable {s : Symbols} {id up : DefinitionId} {key : Key}

/-! ### New definitions -/

theorem definition?_new (d : Definition) (j : DefinitionId) :
    (s.new d).2.definition? j = if j = s.store.size then some d else s.definition? j := by
  simp only [definition?, new, Array.getElem?_push]

theorem lt_size_of_class? (h : s.class? id = some c) : id < s.store.size := by
  obtain ⟨d, hd, _⟩ := Option.bind_eq_some_iff.1 h
  exact (Array.getElem?_eq_some_iff.1 hd).1

theorem lt_size_of_protocol? (h : s.protocol? id = some p) : id < s.store.size := by
  obtain ⟨d, hd, _⟩ := Option.bind_eq_some_iff.1 h
  exact (Array.getElem?_eq_some_iff.1 hd).1

theorem class?_new (d : Definition) (h : s.class? id = some c) :
    (s.new d).2.class? id = some c := by
  rw [class?, definition?_new, if_neg (Nat.ne_of_lt (lt_size_of_class? h))]
  exact h

theorem protocol?_new (d : Definition) (h : s.protocol? id = some p) :
    (s.new d).2.protocol? id = some p := by
  rw [protocol?, definition?_new, if_neg (Nat.ne_of_lt (lt_size_of_protocol? h))]
  exact h

theorem class?_new_cases (h : (s.new d).2.class? id = some c) :
    s.class? id = some c ∨ id = s.store.size ∧ d = .classDef c := by
  rw [class?, definition?_new] at h
  split at h
  · rename_i hid
    cases d with
    | classDef e => exact .inr ⟨hid, congrArg _ (Option.some.inj h)⟩
    | protocolDef p => cases h
  · exact .inl h

theorem protocol?_new_cases (h : (s.new d).2.protocol? id = some p) :
    s.protocol? id = some p ∨ id = s.store.size ∧ d = .protocolDef p := by
  rw [protocol?, definition?_new] at h
  split at h
  · rename_i hid
    cases d with
    | classDef e => cases h
    | protocolDef q => exact .inr ⟨hid, congrArg _ (Option.some.inj h)⟩
  · exact .inl h

theorem Defines.new (h : s.Defines id) (d : Definition) : (s.new d).2.Defines id := by
  obtain ⟨c, key, hc, hstub, hkey, hget⟩ := h
  exact ⟨c, key, class?_new d hc, hstub, hkey, hget⟩

theorem Declares.new (h : s.Declares id) (d : Definition) : (s.new d).2.Declares id := by
  obtain ⟨p, key, hp, hkey, hget⟩ := h
  exact ⟨p, key, protocol?_new d hp, hkey, hget⟩

theorem Defines.lt_size (h : s.Defines id) : id < s.store.size := by
  obtain ⟨c, _, hc, _⟩ := h
  exact lt_size_of_class? hc

theorem Declares.lt_size (h : s.Declares id) : id < s.store.size := by
  obtain ⟨p, _, hp, _⟩ := h
  exact lt_size_of_protocol? hp

/-- A definition without members that refers to what is registered. -/
def Refers (s : Symbols) : Definition → Prop
  | .classDef c => (∀ up, c.superclass = some up → s.Defines up) ∧ bare c = c
  | .protocolDef p => (∀ other ∈ p.incorporated, s.Declares other) ∧ p.methodEntries = []

theorem super_new_cases (h : (s.new d).2.Super id up) :
    s.Super id up ∨ id = s.store.size ∧ ∃ c, d = .classDef c ∧ c.superclass = some up := by
  obtain ⟨c, hc, hup⟩ := Option.bind_eq_some_iff.1 h
  rcases class?_new_cases hc with hc | ⟨hid, hd⟩
  · exact .inl (Option.bind_eq_some_iff.2 ⟨c, hc, hup⟩)
  · exact .inr ⟨hid, c, hd, hup⟩

theorem incorporates_new_cases (h : (s.new d).2.Incorporates id up) :
    s.Incorporates id up ∨ id = s.store.size ∧ ∃ p, d = .protocolDef p ∧ up ∈ p.incorporated := by
  obtain ⟨p, hp, hup⟩ := h
  rcases protocol?_new_cases hp with hp | ⟨hid, hd⟩
  · exact .inl ⟨p, hp, hup⟩
  · exact .inr ⟨hid, p, hd, hup⟩

theorem Sound.transGen_of_new (hs : s.Sound) (h : Relation.TransGen (s.new d).2.Super id up)
    (hid : id < s.store.size) : Relation.TransGen s.Super id up := by
  induction h using Relation.TransGen.head_induction_on with
  | single h =>
    rcases super_new_cases h with h | ⟨rfl, _⟩
    · exact .single h
    · exact absurd hid (Nat.lt_irrefl _)
  | head h _ ih =>
    rcases super_new_cases h with h | ⟨rfl, _⟩
    · exact .head h (ih (Nat.lt_trans (hs.super_lt h) hid))
    · exact absurd hid (Nat.lt_irrefl _)

theorem Sound.new (hs : s.Sound) (hd : s.Refers d) : (s.new d).2.Sound where
  class_key h := by
    obtain ⟨c, hc, hkey⟩ := hs.class_key h
    exact ⟨c, class?_new d hc, hkey⟩
  protocol_key h := by
    obtain ⟨p, hp, hkey⟩ := hs.protocol_key h
    exact ⟨p, protocol?_new d hp, hkey⟩
  typedef_key := hs.typedef_key
  class_apart := hs.class_apart
  protocol_apart := hs.protocol_apart
  plain := hs.plain
  super_lt h := by
    rcases super_new_cases h with h | ⟨rfl, c, rfl, hup⟩
    · exact hs.super_lt h
    · exact (hd.1 _ hup).lt_size
  super_defines h := by
    rcases super_new_cases h with h | ⟨_, c, rfl, hup⟩
    · exact (hs.super_defines h).new d
    · exact (hd.1 _ hup).new _
  incorporates_lt h := by
    rcases incorporates_new_cases h with h | ⟨rfl, p, rfl, hup⟩
    · exact hs.incorporates_lt h
    · exact (hd.1 _ hup).lt_size
  incorporates_declares h := by
    rcases incorporates_new_cases h with h | ⟨_, p, rfl, hup⟩
    · exact (hs.incorporates_declares h).new d
    · exact (hd.1 _ hup).new _
  conforms hc e he := by
    rcases class?_new_cases hc with hc | ⟨_, rfl⟩
    · exact hs.conforms hc e he
    · rw [← hd.2] at he
      cases he
  class_methods hc e he := by
    rcases class?_new_cases hc with hc | ⟨_, rfl⟩
    · exact hs.class_methods hc e he
    · rw [← hd.2] at he
      cases he
  protocol_methods hp e he := by
    rcases protocol?_new_cases hp with hp | ⟨_, rfl⟩
    · exact hs.protocol_methods hp e he
    · rw [hd.2] at he
      cases he
  ivars := by
    -- a new class has no variables, and no old class has it for a superclass
    have hold {id : ClassId} {key : Key} (h : (s.new d).2.HasIvar id key) : s.HasIvar id key := by
      obtain ⟨c, hc, hkey⟩ := h
      rcases class?_new_cases hc with hc | ⟨_, rfl⟩
      · exact ⟨c, hc, hkey⟩
      · rw [← hd.2] at hkey
        cases hkey
    intro id up key hsuper hid hup
    obtain ⟨c, hc, _⟩ := hold hid
    exact hs.ivars (hs.transGen_of_new hsuper (lt_size_of_class? hc)) (hold hid) (hold hup)

theorem Sound.newClass (hs : s.Sound) (hc : s.Refers (.classDef c))
    (hopen : ∀ key, c.registeredName.key? = some key → s.Open key) :
    (s.new (.classDef c)).2.Pending s.store.size where
  toSound := hs.new hc
  newest := (Array.size_push _).symm
  isOpen hd hkey := by
    rcases class?_new_cases hd with hd | ⟨_, h⟩
    · exact absurd (lt_size_of_class? hd) (Nat.lt_irrefl _)
    · cases h
      exact hopen _ hkey

end Symbols

/-! ### Registrations -/

/-- What holds of the tables after a registration, unless the name is taken. -/
def Registration.Holds (P : Symbols → Prop) : Registration → Prop
  | .done s => P s
  | .duplicate _ => True
  | .failed s => P s

namespace Symbols

variable {s : Symbols} {id : DefinitionId} {key : Key}

theorem Sound.same (hs : s.Sound) {s' : Symbols} (hstore : s'.store = s.store)
    (hclasses : s'.classes = s.classes) (hprotocols : s'.protocols = s.protocols)
    (htypedefs : s'.typedefs = s.typedefs) : s'.Sound := by
  have hdefinition : s'.definition? = s.definition? := by
    funext id
    rw [definition?, definition?, hstore]
  have hclass : s'.class? = s.class? := by
    funext id
    rw [class?, class?, hdefinition]
  have hprotocol : s'.protocol? = s.protocol? := by
    funext id
    rw [protocol?, protocol?, hdefinition]
  refine hs.revise ⟨hclasses, hprotocols, htypedefs, fun id => by rw [hclass],
    fun id => by rw [hprotocol]⟩ (fun hc => ?_) (fun hc => ?_) (fun hp => ?_)
      fun hsuper hid hup => ?_
  · exact hs.conforms (hclass ▸ hc)
  · exact hs.class_methods (hclass ▸ hc)
  · exact hs.protocol_methods (hprotocol ▸ hp)
  · rw [HasIvar, hclass] at hid hup
    exact hs.ivars hsuper hid hup

/-- A class is entered under an open name that no other class defines. -/
theorem Sound.enterClass (hs : s.Sound) (hc : s.class? id = some c)
    (hkey : c.registeredName.key? = some key) (hopen : s.Open key)
    (hfree : ∀ d, s.lookupClass key = some d → d.isStub = true) :
    (s.enterClass key id c).Holds Sound := by
  have hsound : ({ s with classes := s.classes.set key c.registeredName id } : Symbols).Sound := by
    have hdefines {up : ClassId} (h : s.Defines up) :
        ({ s with classes := s.classes.set key c.registeredName id } : Symbols).Defines up := by
      obtain ⟨d, k, hd, hstub, hname, hget⟩ := h
      refine ⟨d, k, hd, hstub, hname, ?_⟩
      have hne : k ≠ key := by
        rintro rfl
        have hlookup : s.lookupClass k = some d := by rw [lookupClass, classId?, hget,
          Option.bind_some, hd]
        rw [hfree d hlookup] at hstub
        cases hstub
      exact (NameTable.get?_set_ne _ hne ..).trans hget
    exact { hs with
      class_key := fun {k j} h => by
        by_cases hk : k = key
        · subst hk
          obtain rfl : id = j := Option.mem_unique (NameTable.get?_set_self ..) h
          exact ⟨c, hc, hkey⟩
        · exact hs.class_key ((NameTable.get?_set_ne _ hk ..).symm.trans h)
      class_apart := fun {k} h => by
        by_cases hk : k = key
        · exact hk ▸ hopen
        · exact hs.class_apart fun hnone => h ((NameTable.get?_set_ne _ hk ..).trans hnone)
      super_defines := fun h => hdefines (hs.super_defines h) }
  unfold Symbols.enterClass
  dsimp only
  split
  · exact hsound.same rfl rfl rfl rfl
  · exact hsound

/-- A pending class is registered, unless its name is taken. -/
theorem Pending.registerClass (hs : s.Pending id) : (s.registerClass id).Holds Sound := by
  unfold Symbols.registerClass
  split
  · exact hs.toSound
  · rename_i c hc
    split
    · exact hs.toSound
    · rename_i key hkey
      split
      · rename_i hnone
        exact hs.enterClass hc hkey (hs.isOpen hc hkey) fun d hd => by rw [hnone] at hd; cases hd
      · rename_i d hd
        split
        · exact hs.toSound
        · split
          · rename_i hstub
            refine hs.enterClass hc hkey (hs.isOpen hc hkey) fun e he => ?_
            obtain rfl := Option.mem_unique hd he
            exact hstub
          · trivial

theorem Sound.registerProtocol (hs : s.Sound) (hp : s.protocol? id = some p)
    (hfree : ∀ key, p.name.key? = some key →
      s.classes.get? key = none ∧ s.typedefs.get? key = none ∧ key.IsPlain) :
    (s.registerProtocol id).Holds Sound := by
  obtain ⟨d, hd, hdp⟩ := Option.bind_eq_some_iff.1 hp
  obtain rfl : d = .protocolDef p := by
    cases d with
    | classDef c => cases hdp
    | protocolDef q => exact congrArg _ (Option.some.inj hdp)
  unfold Symbols.registerProtocol
  rw [hd]
  dsimp only [Definition.name]
  split
  · exact hs
  rename_i key hkey
  split
  · trivial
  rename_i hlookup
  obtain ⟨hclass, htypedef, hplain⟩ := hfree key hkey
  have hnone := hs.protocols_get?_eq_none hlookup
  have hold {k : Key} {other : ProtocolId} (h : s.protocols.get? k = some other) :
      (s.protocols.set key p.name id).get? k = some other := by
    have hne : k ≠ key := by
      rintro rfl
      rw [hnone] at h
      cases h
    exact (NameTable.get?_set_ne _ hne ..).trans h
  have hdeclares {other : ProtocolId} (h : s.Declares other) :
      ({ s with protocols := s.protocols.set key p.name id } : Symbols).Declares other := by
    obtain ⟨q, k, hq, hname, hget⟩ := h
    exact ⟨q, k, hq, hname, hold hget⟩
  have hsound : ({ s with protocols := s.protocols.set key p.name id } : Symbols).Sound := { hs with
    protocol_key := fun {k j} h => by
      by_cases hk : k = key
      · subst hk
        obtain rfl : id = j := Option.mem_unique (NameTable.get?_set_self ..) h
        exact ⟨p, hp, hkey⟩
      · exact hs.protocol_key ((NameTable.get?_set_ne _ hk ..).symm.trans h)
    class_apart := fun {k} h => by
      have hne : k ≠ key := by
        rintro rfl
        exact h hclass
      exact ⟨(NameTable.get?_set_ne _ hne ..).trans (hs.class_apart h).1, (hs.class_apart h).2⟩
    protocol_apart := fun {k} h => by
      by_cases hk : k = key
      · exact hk ▸ htypedef
      · exact hs.protocol_apart fun hno => h ((NameTable.get?_set_ne _ hk ..).trans hno)
    plain := fun {k} h => by
      by_cases hk : k = key
      · exact hk ▸ hplain
      · exact hs.plain fun hopen => h ⟨(NameTable.get?_set_ne _ hk ..).trans hopen.1, hopen.2⟩
    incorporates_declares := fun h => hdeclares (hs.incorporates_declares h)
    conforms := fun hc e he => hold (hs.conforms hc e he) }
  split
  · exact hsound.same rfl rfl rfl rfl
  · exact hsound

theorem Sound.registerTypedef (hs : s.Sound) {t : Typedef}
    (hfree : ∀ key, t.name.key? = some key →
      s.classes.get? key = none ∧ s.protocols.get? key = none ∧ key.IsPlain) :
    (s.registerTypedef t).Holds Sound := by
  unfold Symbols.registerTypedef
  split
  · exact hs
  rename_i key hkey
  obtain ⟨hclass, hprotocol, hplain⟩ := hfree key hkey
  have hsound : ({ s with typedefs := s.typedefs.set key t.name t } : Symbols).Sound := { hs with
    typedef_key := fun {k u} h => by
      by_cases hk : k = key
      · subst hk
        obtain rfl : t = u := Option.mem_unique (NameTable.get?_set_self ..) h
        exact hkey
      · exact hs.typedef_key ((NameTable.get?_set_ne _ hk ..).symm.trans h)
    class_apart := fun {k} h => by
      have hne : k ≠ key := by
        rintro rfl
        exact h hclass
      exact ⟨(hs.class_apart h).1, (NameTable.get?_set_ne _ hne ..).trans (hs.class_apart h).2⟩
    protocol_apart := fun {k} h => by
      have hne : k ≠ key := by
        rintro rfl
        exact h hprotocol
      exact (NameTable.get?_set_ne _ hne ..).trans (hs.protocol_apart h)
    plain := fun {k} h => by
      by_cases hk : k = key
      · exact hk ▸ hplain
      · exact hs.plain fun hopen => h ⟨hopen.1, (NameTable.get?_set_ne _ hk ..).trans hopen.2⟩ }
  dsimp only
  split
  · exact hsound.same rfl rfl rfl rfl
  · exact hsound

end Symbols

end ObjectiveJ
