import Mathlib.Logic.Relation
import ObjectiveJ.Symbol.Lookup

/-!
# Well-formed symbol tables

What has to hold of the declarations that a session knows (`Symbols.WellFormed`): each of them is
registered under its own name and no two sorts of them under the same name, superclasses and
incorporated protocols are those that are registered and make no circle, a method has as many types
as its selector asks for, and a variable is declared once on the way up.

Every change of the tables keeps a stronger property, `Symbols.Sound`: classes and protocols refer
to older ones only, and the names of protocols and types have no plus sign. A class that is declared
is `Symbols.Pending` until it is registered, and only such a class gets variables.
-/

namespace ObjectiveJ

variable {m : Method}

/-- A key whose text has no plus sign, which stands between a class and its category. -/
def Key.IsPlain (key : Key) : Prop := ∀ s, key = .text s → '+' ∉ s.toList

/-- A method that a table may have under a key: its selector has the key, and it has one type more
than the selector has colons. -/
def Method.Fits (m : Method) (key : Key) : Prop :=
  m.selector.key? = some key ∧ (Method.colons? m.selector).map (· + 1) = some m.types.length

theorem Method.fits_of_make? {selector : Value} {types : List Value} {node : Value}
    (h : Method.make? selector types node = some (.ok m)) : m.Fits m.key := by
  unfold Method.make? at h
  obtain ⟨colons, hcolons, h⟩ := Option.bind_eq_some_iff.1 h
  dsimp only at h
  split at h
  · cases h
  · rename_i hlength
    obtain ⟨key, hkey, h⟩ := Option.bind_eq_some_iff.1 h
    obtain rfl := Except.ok.inj (Option.some.inj h)
    refine ⟨hkey, ?_⟩
    rw [hcolons, Option.map_some]
    exact congrArg some (Decidable.not_not.1 hlength).symm

def ClassDef.methodEntries (c : ClassDef) : List (Key × Method) :=
  c.instanceMethods.entries ++ c.classMethods.entries

def ProtocolDef.methodEntries (p : ProtocolDef) : List (Key × Method) :=
  p.requiredInstance.entries ++ p.requiredClass.entries ++ p.optionalInstance.entries ++
    p.optionalClass.entries

namespace Symbols

variable {f : ClassDef → ClassDef} {kind : MethodKind} {c : ClassDef}

def Super (s : Symbols) (id up : ClassId) : Prop := (s.class? id).bind (·.superclass) = some up

instance (s : Symbols) (id up : ClassId) : Decidable (s.Super id up) :=
  inferInstanceAs (Decidable (_ = _))

def Incorporates (s : Symbols) (id other : ProtocolId) : Prop :=
  ∃ p, s.protocol? id = some p ∧ other ∈ p.incorporated

def Conforms (s : Symbols) (id : ClassId) (protocol : ProtocolId) : Prop :=
  ∃ c, s.class? id = some c ∧ protocol ∈ c.protocols.values

def HasIvar (s : Symbols) (id : ClassId) (key : Key) : Prop :=
  ∃ c, s.class? id = some c ∧ c.ivars.contains key = true

/-- A class is no stub, and it is the one that is registered under its name. -/
def Defines (s : Symbols) (id : ClassId) : Prop :=
  ∃ c key, s.class? id = some c ∧ c.isStub = false ∧ c.name.key? = some key ∧
    s.classes.get? key = some id

/-- A protocol is the one that is registered under its name. -/
def Declares (s : Symbols) (id : ProtocolId) : Prop :=
  ∃ p key, s.protocol? id = some p ∧ p.name.key? = some key ∧ s.protocols.get? key = some id

/-- A name that no protocol and no type definition has. -/
def Open (s : Symbols) (key : Key) : Prop :=
  s.protocols.get? key = none ∧ s.typedefs.get? key = none

/-- Symbol tables in which declarations are registered under their names and refer to others that
are. -/
structure Registers (s : Symbols) : Prop where
  class_key : ∀ {key id}, s.classes.get? key = some id →
    ∃ c, s.class? id = some c ∧ c.registeredName.key? = some key
  protocol_key : ∀ {key id}, s.protocols.get? key = some id →
    ∃ p, s.protocol? id = some p ∧ p.name.key? = some key
  typedef_key : ∀ {key t}, s.typedefs.get? key = some t → t.name.key? = some key
  class_apart : ∀ {key}, s.classes.get? key ≠ none → s.Open key
  protocol_apart : ∀ {key}, s.protocols.get? key ≠ none → s.typedefs.get? key = none
  super_defines : ∀ {id up}, s.Super id up → s.Defines up
  incorporates_declares : ∀ {id other}, s.Incorporates id other → s.Declares other
  class_methods : ∀ {id c}, s.class? id = some c → ∀ e ∈ c.methodEntries, e.2.Fits e.1
  protocol_methods : ∀ {id p}, s.protocol? id = some p → ∀ e ∈ p.methodEntries, e.2.Fits e.1
  ivars : ∀ {id up key}, Relation.TransGen s.Super id up → s.HasIvar id key → ¬ s.HasIvar up key

/-- Symbol tables in which, moreover, no declaration leads back to itself. -/
structure WellFormed (s : Symbols) : Prop extends s.Registers where
  super_acyclic : ∀ id, ¬ Relation.TransGen s.Super id id
  incorporates_acyclic : ∀ id, ¬ Relation.TransGen s.Incorporates id id
  conforms_declares : ∀ {id protocol}, s.Conforms id protocol → s.Declares protocol

/-- What every change of the tables keeps. -/
structure Sound (s : Symbols) : Prop extends s.Registers where
  plain : ∀ {key}, ¬ s.Open key → key.IsPlain
  super_lt : ∀ {id up}, s.Super id up → up < id
  incorporates_lt : ∀ {id other}, s.Incorporates id other → other < id
  conforms : ∀ {id c}, s.class? id = some c →
    ∀ e ∈ c.protocols.entries.entries, s.protocols.get? e.1 = some e.2.2

/-- A class that is declared but not yet registered: the newest one, and its name is open. -/
structure Pending (s : Symbols) (id : ClassId) : Prop extends s.Sound where
  newest : id + 1 = s.store.size
  isOpen : ∀ {c key}, s.class? id = some c → c.registeredName.key? = some key → s.Open key

variable {s s' : Symbols} {id up : DefinitionId} {key : Key}

theorem classes_get?_eq_none (hkeys : ∀ {key id}, s.classes.get? key = some id →
      ∃ c, s.class? id = some c ∧ c.registeredName.key? = some key) (h : s.lookupClass key = none) :
    s.classes.get? key = none := by
  cases hget : s.classes.get? key with
  | none => rfl
  | some id =>
    obtain ⟨c, hc, _⟩ := hkeys hget
    rw [lookupClass, classId?, hget, Option.bind_some, hc] at h
    cases h

namespace Sound

theorem declares (hs : s.Sound) (h : s.protocols.get? key = some id) : s.Declares id := by
  obtain ⟨p, hp, hkey⟩ := hs.protocol_key h
  exact ⟨p, key, hp, hkey, h⟩

theorem protocols_get?_eq_none (hs : s.Sound) (h : s.lookupProtocol key = none) :
    s.protocols.get? key = none := by
  cases hget : s.protocols.get? key with
  | none => rfl
  | some id =>
    obtain ⟨p, hp, _⟩ := hs.protocol_key hget
    obtain ⟨d, hd, _⟩ := Option.bind_eq_some_iff.1 hp
    rw [lookupProtocol, hget, Option.bind_some, hd] at h
    cases h

theorem open_of_lookupClass (hs : s.Sound) (h : (s.lookupClass key).isSome = true) :
    s.Open key := by
  refine hs.class_apart fun hnone => ?_
  rw [lookupClass, classId?, hnone] at h
  cases h

theorem lt_of_transGen {r : DefinitionId → DefinitionId → Prop} (hr : ∀ {id up}, r id up → up < id)
    (h : Relation.TransGen r id up) : up < id := by
  induction h with
  | single h => exact hr h
  | tail _ h ih => exact Nat.lt_trans (hr h) ih

theorem wellFormed (hs : s.Sound) : s.WellFormed :=
  { hs with
    super_acyclic := fun id h => Nat.lt_irrefl id (lt_of_transGen hs.super_lt h)
    incorporates_acyclic := fun id h => Nat.lt_irrefl id (lt_of_transGen hs.incorporates_lt h)
    conforms_declares := by
      rintro id protocol ⟨c, hc, hprotocol⟩
      obtain ⟨⟨name, _⟩, he, rfl⟩ := List.mem_map.1 hprotocol
      obtain ⟨e, he, heq⟩ := List.mem_map.1 he
      have h := hs.conforms hc e he
      rw [heq] at h
      exact hs.declares h }

theorem empty : ({} : Symbols).Sound where
  class_key h := by cases h
  protocol_key h := by cases h
  typedef_key h := by cases h
  class_apart h := absurd rfl h
  protocol_apart h := absurd rfl h
  plain h := absurd ⟨rfl, rfl⟩ h
  super_lt h := by cases h
  super_defines h := by cases h
  incorporates_lt h := by obtain ⟨p, hp, _⟩ := h; cases hp
  incorporates_declares h := by obtain ⟨p, hp, _⟩ := h; cases hp
  conforms h := by cases h
  class_methods h := by cases h
  protocol_methods h := by cases h
  ivars _ h := by obtain ⟨c, hc, _⟩ := h; cases hc

end Sound

/-! ### Changes of definitions -/

theorem class?_modifyClass (f : ClassDef → ClassDef) (j : DefinitionId) :
    (s.modifyClass id f).class? j = if id = j then (s.class? j).map f else s.class? j := by
  simp only [class?, definition?, modifyClass, Array.getElem?_modify]
  split
  · rcases s.store[j]? with _ | c | p
    · rfl
    · rfl
    · rfl
  · rfl

theorem protocol?_modifyClass (f : ClassDef → ClassDef) (j : DefinitionId) :
    (s.modifyClass id f).protocol? j = s.protocol? j := by
  simp only [protocol?, definition?, modifyClass, Array.getElem?_modify]
  split
  · rcases s.store[j]? with _ | c | p
    · rfl
    · rfl
    · rfl
  · rfl

theorem class?_modifyProtocol (f : ProtocolDef → ProtocolDef) (j : DefinitionId) :
    (s.modifyProtocol id f).class? j = s.class? j := by
  simp only [class?, definition?, modifyProtocol, Array.getElem?_modify]
  split
  · rcases s.store[j]? with _ | c | p
    · rfl
    · rfl
    · rfl
  · rfl

theorem protocol?_modifyProtocol (f : ProtocolDef → ProtocolDef) (j : DefinitionId) :
    (s.modifyProtocol id f).protocol? j =
      if id = j then (s.protocol? j).map f else s.protocol? j := by
  simp only [protocol?, definition?, modifyProtocol, Array.getElem?_modify]
  split
  · rcases s.store[j]? with _ | c | p
    · rfl
    · rfl
    · rfl
  · rfl

/-- A class as it was declared: without its variables, methods and protocols. -/
def bare (c : ClassDef) : ClassDef :=
  { c with ivars := {}, instanceMethods := {}, classMethods := {}, protocols := {} }

/-- The same names are registered for the same definitions, which may have other members than
before. -/
structure Revises (s s' : Symbols) : Prop where
  classes : s'.classes = s.classes
  protocols : s'.protocols = s.protocols
  typedefs : s'.typedefs = s.typedefs
  class? : ∀ id, (s'.class? id).map bare = (s.class? id).map bare
  protocol? : ∀ id, (s'.protocol? id).map (fun p => (p.name, p.incorporated)) =
    (s.protocol? id).map fun p => (p.name, p.incorporated)

namespace Revises

theorem exists_class (h : Revises s s') (hc : s'.class? id = some c) :
    ∃ d, s.class? id = some d ∧ bare c = bare d := by
  have hsame := h.class? id
  rw [hc, Option.map_some, eq_comm, Option.map_eq_some_iff] at hsame
  obtain ⟨d, hd, hbare⟩ := hsame
  exact ⟨d, hd, hbare.symm⟩

theorem symm (h : Revises s s') : Revises s' s :=
  ⟨h.classes.symm, h.protocols.symm, h.typedefs.symm, fun id => (h.class? id).symm,
    fun id => (h.protocol? id).symm⟩

theorem exists_protocol (h : Revises s s') {p : ProtocolDef} (hp : s'.protocol? id = some p) :
    ∃ q, s.protocol? id = some q ∧ p.name = q.name ∧ p.incorporated = q.incorporated := by
  have hsame := h.protocol? id
  rw [hp, Option.map_some, eq_comm, Option.map_eq_some_iff] at hsame
  obtain ⟨q, hq, heq⟩ := hsame
  exact ⟨q, hq, (congrArg Prod.fst heq).symm, (congrArg Prod.snd heq).symm⟩

theorem super (h : Revises s s') : s'.Super = s.Super := by
  funext id up
  have hsuper (s : Symbols) : (s.class? id).bind (·.superclass) =
      ((s.class? id).map bare).bind (·.superclass) := by
    cases s.class? id with
    | none => rfl
    | some c => rfl
  rw [Super, Super, hsuper s', hsuper s, h.class? id]

theorem incorporates (h : Revises s s') : s'.Incorporates = s.Incorporates := by
  have himp {s s' : Symbols} (h : Revises s s') {id other : ProtocolId}
      (hi : s'.Incorporates id other) : s.Incorporates id other := by
    obtain ⟨p, hp, hother⟩ := hi
    obtain ⟨q, hq, _, hincorporated⟩ := h.exists_protocol hp
    exact ⟨q, hq, hincorporated ▸ hother⟩
  funext id other
  exact propext ⟨himp h, himp h.symm⟩

theorem defines (h : Revises s s') (hd : s.Defines id) : s'.Defines id := by
  obtain ⟨c, key, hc, hstub, hkey, hget⟩ := hd
  obtain ⟨d, hd, hbare⟩ := h.symm.exists_class hc
  refine ⟨d, key, hd, ?_, ?_, h.classes ▸ hget⟩
  · exact (congrArg ClassDef.isStub hbare).symm.trans hstub
  · exact (congrArg (·.name.key?) hbare).symm.trans hkey

theorem declares (h : Revises s s') (hd : s.Declares id) : s'.Declares id := by
  obtain ⟨p, key, hp, hkey, hget⟩ := hd
  obtain ⟨q, hq, hname, _⟩ := h.symm.exists_protocol hp
  exact ⟨q, key, hq, hname ▸ hkey, h.protocols ▸ hget⟩

theorem open_iff (h : Revises s s') : s'.Open key ↔ s.Open key := by
  rw [Open, Open, h.protocols, h.typedefs]

end Revises

theorem Sound.revise (hs : s.Sound) (h : Revises s s')
    (hconforms : ∀ {id c}, s'.class? id = some c →
      ∀ e ∈ c.protocols.entries.entries, s.protocols.get? e.1 = some e.2.2)
    (hclass : ∀ {id c}, s'.class? id = some c → ∀ e ∈ c.methodEntries, e.2.Fits e.1)
    (hprotocol : ∀ {id p}, s'.protocol? id = some p → ∀ e ∈ p.methodEntries, e.2.Fits e.1)
    (hivars : ∀ {id up key}, Relation.TransGen s.Super id up → s'.HasIvar id key →
      ¬ s'.HasIvar up key) : s'.Sound where
  class_key hget := by
    rw [h.classes] at hget
    obtain ⟨c, hc, hkey⟩ := hs.class_key hget
    obtain ⟨d, hd, hbare⟩ := h.symm.exists_class hc
    exact ⟨d, hd, (congrArg (·.registeredName.key?) hbare).symm.trans hkey⟩
  protocol_key hget := by
    rw [h.protocols] at hget
    obtain ⟨p, hp, hkey⟩ := hs.protocol_key hget
    obtain ⟨q, hq, hname, _⟩ := h.symm.exists_protocol hp
    exact ⟨q, hq, hname ▸ hkey⟩
  typedef_key hget := hs.typedef_key (h.typedefs ▸ hget)
  class_apart hget := h.open_iff.2 (hs.class_apart (h.classes ▸ hget))
  protocol_apart hget := by
    rw [h.protocols] at hget
    rw [h.typedefs]
    exact hs.protocol_apart hget
  plain hopen := hs.plain (mt h.open_iff.2 hopen)
  super_lt hsuper := hs.super_lt (h.super ▸ hsuper)
  super_defines hsuper := h.defines (hs.super_defines (h.super ▸ hsuper))
  incorporates_lt hi := hs.incorporates_lt (h.incorporates ▸ hi)
  incorporates_declares hi := h.declares (hs.incorporates_declares (h.incorporates ▸ hi))
  conforms hc e he := by
    rw [h.protocols]
    exact hconforms hc e he
  class_methods := hclass
  protocol_methods := hprotocol
  ivars hsuper := hivars (h.super ▸ hsuper)

theorem revises_modifyClass (hf : ∀ c, bare (f c) = bare c) : Revises s (s.modifyClass id f) where
  classes := rfl
  protocols := rfl
  typedefs := rfl
  class? j := by
    rw [class?_modifyClass]
    split
    · rw [Option.map_map]
      exact congrArg (Option.map · _) (funext hf)
    · rfl
  protocol? j := by rw [protocol?_modifyClass]

theorem revises_modifyProtocol {f : ProtocolDef → ProtocolDef} (hname : ∀ p, (f p).name = p.name)
    (hf : ∀ p, (f p).incorporated = p.incorporated) : Revises s (s.modifyProtocol id f) where
  classes := rfl
  protocols := rfl
  typedefs := rfl
  class? j := by rw [class?_modifyProtocol]
  protocol? j := by
    rw [protocol?_modifyProtocol]
    split
    · rw [Option.map_map]
      refine congrArg (Option.map · _) (funext fun p => ?_)
      simp only [Function.comp_apply, hname, hf]
    · rfl

theorem class?_modifyClass_cases {j : ClassId} (hc : (s.modifyClass id f).class? j = some c) :
    ∃ d, s.class? j = some d ∧ (c = d ∨ c = f d) := by
  rw [class?_modifyClass] at hc
  split at hc
  · obtain ⟨d, hd, rfl⟩ := Option.map_eq_some_iff.1 hc
    exact ⟨d, hd, .inr rfl⟩
  · exact ⟨c, hc, .inl rfl⟩

theorem hasIvar_modifyClass (h : (s.modifyClass id f).HasIvar up key)
    (hf : ∀ c, (f c).ivars = c.ivars) : s.HasIvar up key := by
  obtain ⟨c, hc, hkey⟩ := h
  obtain ⟨d, hd, rfl | rfl⟩ := class?_modifyClass_cases hc
  · exact ⟨c, hd, hkey⟩
  · exact ⟨d, hd, hf d ▸ hkey⟩

theorem Sound.modifyClass (hs : s.Sound) (hbare : ∀ c, bare (f c) = bare c)
    (hconforms : ∀ c, ∀ e ∈ (f c).protocols.entries.entries,
      e ∈ c.protocols.entries.entries ∨ s.protocols.get? e.1 = some e.2.2)
    (hmethods : ∀ c, ∀ e ∈ (f c).methodEntries, e ∈ c.methodEntries ∨ e.2.Fits e.1)
    (hivars : ∀ {j up key}, Relation.TransGen s.Super j up → (s.modifyClass id f).HasIvar j key →
      ¬ (s.modifyClass id f).HasIvar up key) : (s.modifyClass id f).Sound := by
  refine hs.revise (revises_modifyClass hbare) (fun hc e he => ?_) (fun hc e he => ?_)
    (fun hp => ?_) hivars
  · obtain ⟨d, hd, rfl | rfl⟩ := class?_modifyClass_cases hc
    · exact hs.conforms hd e he
    · exact (hconforms d e he).elim (hs.conforms hd e) fun h => h
  · obtain ⟨d, hd, rfl | rfl⟩ := class?_modifyClass_cases hc
    · exact hs.class_methods hd e he
    · exact (hmethods d e he).elim (hs.class_methods hd e) fun h => h
  · rw [protocol?_modifyClass] at hp
    exact hs.protocol_methods hp

/-! ### Methods -/

theorem mem_methodEntries_mapMethods {g : Table Key Method → Table Key Method}
    (hg : ∀ t, ∀ e ∈ (g t).entries, e ∈ t.entries ∨ e.2.Fits e.1) {e : Key × Method}
    (he : e ∈ (c.mapMethods kind g).methodEntries) : e ∈ c.methodEntries ∨ e.2.Fits e.1 := by
  cases kind with
  | ofInstance =>
    rcases List.mem_append.1 he with he | he
    · exact (hg _ e he).imp_left (List.mem_append_left _)
    · exact .inl (List.mem_append_right _ he)
  | ofClass =>
    rcases List.mem_append.1 he with he | he
    · exact .inl (List.mem_append_left _ he)
    · exact (hg _ e he).imp_left (List.mem_append_right _)

theorem bare_mapMethods (c : ClassDef) (kind : MethodKind)
    (g : Table Key Method → Table Key Method) : bare (c.mapMethods kind g) = bare c := by
  cases kind with
  | ofInstance => rfl
  | ofClass => rfl

theorem ivars_mapMethods (c : ClassDef) (kind : MethodKind)
    (g : Table Key Method → Table Key Method) : (c.mapMethods kind g).ivars = c.ivars := by
  cases kind with
  | ofInstance => rfl
  | ofClass => rfl

theorem protocols_mapMethods (c : ClassDef) (kind : MethodKind)
    (g : Table Key Method → Table Key Method) : (c.mapMethods kind g).protocols = c.protocols := by
  cases kind with
  | ofInstance => rfl
  | ofClass => rfl

theorem Sound.mapMethods (hs : s.Sound) {g : Table Key Method → Table Key Method}
    (hg : ∀ t, ∀ e ∈ (g t).entries, e ∈ t.entries ∨ e.2.Fits e.1) :
    (s.modifyClass id (·.mapMethods kind g)).Sound := by
  have hivar {j : ClassId} {key : Key}
      (h : (s.modifyClass id (·.mapMethods kind g)).HasIvar j key) : s.HasIvar j key :=
    hasIvar_modifyClass h fun c => ivars_mapMethods c kind g
  refine hs.modifyClass (fun c => bare_mapMethods c kind g) (fun c e he => .inl ?_)
    (fun c e he => mem_methodEntries_mapMethods hg he) fun hsuper hj hup =>
      hs.ivars hsuper (hivar hj) (hivar hup)
  rwa [protocols_mapMethods] at he

theorem Sound.addMethod (hs : s.Sound) (hm : m.Fits m.key) (kind : MethodKind) :
    (s.addMethod id m kind).Sound := by
  have hset (t : Table Key Method) (e : Key × Method) (he : e ∈ (t.set m.key m).entries) :
      e ∈ t.entries ∨ e.2.Fits e.1 := by
    rcases Table.mem_setEntry he with he | rfl
    · exact .inl he
    · exact .inr hm
  have hown : (s.modifyClass id (·.mapMethods kind (·.set m.key m))).Sound := hs.mapMethods hset
  unfold Symbols.addMethod
  dsimp only
  split
  · refine hown.mapMethods fun t e he => ?_
    unfold Table.setDefault at he
    split at he
    · exact .inl he
    · exact hset t e he
  · exact hown

theorem mem_methodEntries_addMethod {p : ProtocolDef} (hm : m.Fits m.key) {isRequired : Bool}
    {e : Key × Method} (he : e ∈ (p.addMethod m kind isRequired).methodEntries) :
    e ∈ p.methodEntries ∨ e.2.Fits e.1 := by
  have hset {t t' : Table Key Method} (ht : t' = t ∨ t' = t.set m.key m) (he : e ∈ t'.entries) :
      e ∈ t.entries ∨ e.2.Fits e.1 := by
    rcases ht with rfl | rfl
    · exact .inl he
    rcases Table.mem_setEntry he with he | rfl
    · exact .inl he
    · exact .inr hm
  generalize hq : p.addMethod m kind isRequired = q at he
  -- The method is set in one of the four tables.
  obtain ⟨hreqi, hreqc, hopti, hoptc⟩ :
      (q.requiredInstance = p.requiredInstance ∨
        q.requiredInstance = p.requiredInstance.set m.key m) ∧
      (q.requiredClass = p.requiredClass ∨ q.requiredClass = p.requiredClass.set m.key m) ∧
      (q.optionalInstance = p.optionalInstance ∨
        q.optionalInstance = p.optionalInstance.set m.key m) ∧
      (q.optionalClass = p.optionalClass ∨ q.optionalClass = p.optionalClass.set m.key m) := by
    subst hq
    cases kind <;> cases isRequired <;> simp [ProtocolDef.addMethod]
  simp only [ProtocolDef.methodEntries, List.mem_append] at he ⊢
  rcases he with ((he | he) | he) | he
  · exact (hset hreqi he).imp_left fun h => .inl (.inl (.inl h))
  · exact (hset hreqc he).imp_left fun h => .inl (.inl (.inr h))
  · exact (hset hopti he).imp_left fun h => .inl (.inr h)
  · exact (hset hoptc he).imp_left .inr

theorem revises_addProtocolMethod (s : Symbols) (id : ProtocolId) (m : Method) (kind : MethodKind)
    (isRequired : Bool) : Revises s (s.modifyProtocol id (·.addMethod m kind isRequired)) := by
  have hsame (p : ProtocolDef) : (p.addMethod m kind isRequired).name = p.name ∧
      (p.addMethod m kind isRequired).incorporated = p.incorporated := by
    rcases kind with _ | _ <;> rcases isRequired with _ | _ <;> exact ⟨rfl, rfl⟩
  exact revises_modifyProtocol (fun p => (hsame p).1) fun p => (hsame p).2

theorem Sound.addProtocolMethod (hs : s.Sound) (hm : m.Fits m.key) (kind : MethodKind)
    (isRequired : Bool) : (s.modifyProtocol id (·.addMethod m kind isRequired)).Sound := by
  refine hs.revise (revises_addProtocolMethod s id m kind isRequired) (fun hc => ?_) (fun hc => ?_)
    (fun hp e he => ?_) fun hsuper hid hup => ?_
  · rw [class?_modifyProtocol] at hc
    exact hs.conforms hc
  · rw [class?_modifyProtocol] at hc
    exact hs.class_methods hc
  · rw [protocol?_modifyProtocol] at hp
    split at hp
    · obtain ⟨q, hq, rfl⟩ := Option.map_eq_some_iff.1 hp
      exact (mem_methodEntries_addMethod hm he).elim (hs.protocol_methods hq e) fun h => h
    · exact hs.protocol_methods hp e he
  · obtain ⟨c, hc, hkey⟩ := hid
    obtain ⟨d, hd, hkey'⟩ := hup
    rw [class?_modifyProtocol] at hc hd
    exact hs.ivars hsuper ⟨c, hc, hkey⟩ ⟨d, hd, hkey'⟩

/-! ### Members of a pending class -/

theorem Pending.revise {s' : Symbols} (hs : s.Pending id) (hsound : s'.Sound) (h : Revises s s')
    (hsize : s'.store.size = s.store.size) : s'.Pending id where
  toSound := hsound
  newest := hsize ▸ hs.newest
  isOpen hc hkey := by
    obtain ⟨d, hd, hbare⟩ := h.exists_class hc
    refine h.open_iff.2 (hs.isOpen hd ?_)
    exact (congrArg (·.registeredName.key?) hbare).symm.trans hkey

theorem size_modifyClass (f : ClassDef → ClassDef) :
    (s.modifyClass id f).store.size = s.store.size := Array.size_modify

theorem Pending.addProtocol (hs : s.Pending id) {protocol : ProtocolId} (name : Value)
    (h : s.protocols.get? key = some protocol) :
    (s.modifyClass id fun c => { c with protocols := c.protocols.set key name protocol }).Pending
      id := by
  have hivar {j : ClassId} {k : Key} (h : (s.modifyClass id fun c =>
      { c with protocols := c.protocols.set key name protocol }).HasIvar j k) : s.HasIvar j k :=
    hasIvar_modifyClass h fun c => rfl
  refine hs.revise ?_ (revises_modifyClass fun c => rfl) (size_modifyClass _)
  refine hs.modifyClass (fun c => rfl) (fun c e he => ?_) (fun c e he => .inl he)
    fun hsuper hj hup => hs.ivars hsuper (hivar hj) (hivar hup)
  rcases Table.mem_setEntry he with he | rfl
  · exact .inl he
  · exact .inr h

theorem among_eq_none {α β : Type} {f : β → Search α} {bs : List β}
    (h : Search.among f bs = some none) : ∀ b ∈ bs, f b = some none := by
  induction bs with
  | nil => nofun
  | cons b rest ih =>
    rw [Search.among] at h
    split at h
    · rename_i hb
      intro c hc
      rcases List.mem_cons.1 hc with rfl | hc
      · exact hb
      · exact ih h c hc
    · rename_i hne
      exact absurd h (hne ·)

theorem Sound.mem_superclasses (hs : s.Sound) (h : Relation.ReflTransGen s.Super id up)
    {d : Definition} (hd : s.definition? up = some d) : d ∈ s.superclasses id := by
  induction h using Relation.ReflTransGen.head_induction_on with
  | refl =>
    rw [superclasses, hd]
    exact .head _
  | @head j k hsuper _ ih =>
    have hlt := hs.super_lt hsuper
    obtain ⟨c, hc, hup⟩ := Option.bind_eq_some_iff.1 hsuper
    obtain ⟨e, he, hclass⟩ := Option.bind_eq_some_iff.1 hc
    rw [superclasses, he]
    refine List.mem_cons_of_mem _ ?_
    have hbind : e.class?.bind (·.superclass) = some k := by rw [hclass, Option.bind_some, hup]
    rw [hbind]
    simpa only [hlt, if_true] using ih

/-- A variable that is not found is declared nowhere on the way up. -/
theorem Sound.not_hasIvar (hs : s.Sound) (h : s.findIvar id key = some none)
    (hup : Relation.ReflTransGen s.Super id up) : ¬ s.HasIvar up key := by
  rintro ⟨c, hc, hkey⟩
  obtain ⟨d, hd, hclass⟩ := Option.bind_eq_some_iff.1 hc
  have hnone := among_eq_none h d (hs.mem_superclasses hup hd)
  rw [hclass, Option.map_some, Option.some.injEq, Option.map_eq_none_iff] at hnone
  rw [Table.contains, hnone] at hkey
  cases hkey

/-- Only the newest class gets a variable, and no other class has that for its superclass. -/
theorem Pending.addIvar (hs : s.Pending id) (ivar : Ivar) (h : s.findIvar id key = some none) :
    (s.modifyClass id fun c => { c with ivars := c.ivars.set key ivar }).Pending id := by
  refine hs.revise ?_ (revises_modifyClass fun c => rfl) (size_modifyClass _)
  refine hs.modifyClass (fun c => rfl) (fun c e he => .inl he) (fun c e he => .inl he) ?_
  intro j up k hsuper hj hup
  have hlt := Sound.lt_of_transGen hs.super_lt hsuper
  obtain ⟨c, hc, hkey⟩ := hj
  obtain ⟨u, hu, hkey'⟩ := hup
  have hjsize : j < s.store.size := by
    obtain ⟨d, hd, _⟩ := Option.bind_eq_some_iff.1 hc
    exact size_modifyClass (s := s) _ ▸ (Array.getElem?_eq_some_iff.1 hd).1
  have hle : j ≤ id := Nat.le_of_lt_succ (Nat.lt_of_lt_of_eq hjsize hs.newest.symm)
  have hne : id ≠ up := Nat.ne_of_gt (Nat.lt_of_lt_of_le hlt hle)
  rw [class?_modifyClass, if_neg hne] at hu
  rw [class?_modifyClass] at hc
  split at hc
  · rename_i hid
    obtain ⟨d, hd, rfl⟩ := Option.map_eq_some_iff.1 hc
    by_cases hk : k = key
    · subst hk hid
      exact hs.not_hasIvar h hsuper.to_reflTransGen ⟨u, hu, hkey'⟩
    · rw [Table.contains, Table.get?_set_ne _ hk] at hkey
      exact hs.ivars hsuper ⟨d, hd, hkey⟩ ⟨u, hu, hkey'⟩
  · exact hs.ivars hsuper ⟨c, hc, hkey⟩ ⟨u, hu, hkey'⟩

end Symbols

end ObjectiveJ
