import Mathlib.Data.List.Nodup
import ObjectiveJ.Proofs.Tables.Register

/-!
# Classes and protocols put together step by step

A class is made with a superclass and a base that are there already. A protocol may get more
protocols to incorporate later, so protocols may incorporate each other in a circle. Methods are
added to both. `Symbols.IsBuilt` is what all of these steps keep, whatever their order
(`isBuilt_build`).
-/

namespace ObjectiveJ

/-- A table of methods by their selectors, each selector once. -/
structure Table.IsKeyed (t : Table Key Method) : Prop where
  nodup : t.names.Nodup
  key : ∀ {e}, e ∈ t.entries → e.2.key = e.1

namespace Table

variable {κ α : Type} [DecidableEq κ] {t : Table κ α} {name other : κ} {value : α}

theorem names_setEntry (name : κ) (value : α) (entries : List (κ × α)) :
    (setEntry name value entries).map (·.1) = entries.map (·.1) ∨
      name ∉ entries.map (·.1) ∧
        (setEntry name value entries).map (·.1) = entries.map (·.1) ++ [name] := by
  induction entries with
  | nil => exact .inr ⟨by simp, rfl⟩
  | cons e rest ih =>
    obtain ⟨k, v⟩ := e
    by_cases hk : k = name
    · exact .inl (by simp [setEntry, hk])
    · rcases ih with ih | ⟨hnot, ih⟩
      · exact .inl (by simp only [setEntry, if_neg hk, List.map_cons, ih])
      · refine .inr ⟨?_, by simp only [setEntry, if_neg hk, List.map_cons, ih, List.cons_append]⟩
        rw [List.map_cons, List.mem_cons, not_or]
        exact ⟨Ne.symm hk, hnot⟩

theorem nodup_names_set (h : t.names.Nodup) (name : κ) (value : α) :
    (t.set name value).names.Nodup := by
  rcases names_setEntry name value t.entries with hsame | ⟨hnot, hnew⟩
  · exact (congrArg List.Nodup hsame).mpr h
  · refine (congrArg List.Nodup hnew).mpr (List.nodup_append.2 ⟨h, List.nodup_singleton _, ?_⟩)
    rintro a ha b hb rfl
    obtain rfl := List.mem_singleton.1 hb
    exact hnot ha

theorem IsKeyed.set {t : Table Key Method} (h : t.IsKeyed) (m : Method) :
    (t.set m.key m).IsKeyed where
  nodup := nodup_names_set h.nodup m.key m
  key he := by
    rcases mem_setEntry he with he | rfl
    · exact h.key he
    · rfl

theorem IsKeyed.empty : ({} : Table Key Method).IsKeyed := ⟨List.nodup_nil, nofun⟩

theorem IsKeyed.eq_of_key {t : Table Key Method} (h : t.IsKeyed) {m m' : Method} (hm : m ∈ t.values)
    (hm' : m' ∈ t.values) (hkey : m.key = m'.key) : m = m' := by
  obtain ⟨e, he, rfl⟩ := List.mem_map.1 hm
  obtain ⟨e', he', rfl⟩ := List.mem_map.1 hm'
  rw [h.key he, h.key he'] at hkey
  exact congrArg Prod.snd (List.inj_on_of_nodup_map h.nodup he he' hkey)

end Table

/-- A step in which classes and protocols are put together. -/
inductive Construction where
  | newClass (name : String) (superclass : Option ClassId) (category : Option String)
      (base : Option ClassId) (node : Value)
  | newProtocol (name : String) (incorporated : List ProtocolId) (node : Value)
  | incorporate (id other : ProtocolId)
  | addMethod (id : DefinitionId) (selector : String) (types : List Value) (node : Value)
      (kind : MethodKind) (isRequired : Bool)
  | conform (id : ClassId) (name : String) (protocol : ProtocolId)

namespace Symbols

def addMethodTo (s : Symbols) (id : DefinitionId) (m : Method) (kind : MethodKind)
    (isRequired : Bool) : Symbols :=
  if (s.class? id).isSome then s.addMethod id m kind
  else s.modifyProtocol id (·.addMethod m kind isRequired)

/-- Takes a step. One that refers to something else than it needs, or to a method whose types do not
fit, is left out. -/
def construct (s : Symbols) : Construction → Symbols
  | .newClass name superclass category base node =>
    if superclass.all (fun id => (s.class? id).isSome) ∧
      base.all (fun id => (s.class? id).isSome) then
      (s.new (.classDef
        { name := .str name, superclass, category := (category.map Value.str).getD .null, base,
          node })).2
    else s
  | .newProtocol name incorporated node =>
    if incorporated.all (fun id => (s.protocol? id).isSome) then
      (s.new (.protocolDef { name := .str name, node, incorporated })).2
    else s
  | .incorporate id other =>
    if (s.protocol? other).isSome then
      s.modifyProtocol id fun p => { p with incorporated := p.incorporated ++ [other] }
    else s
  | .addMethod id selector types node kind isRequired =>
    match Method.make? (.str selector) types node with
    | some (.ok m) => s.addMethodTo id m kind isRequired
    | _ => s
  | .conform id name protocol =>
    if (s.protocol? protocol).isSome then
      s.modifyClass id fun c =>
      { c with protocols := c.protocols.set (.text name) (.str name) protocol }
    else s

def build (steps : List Construction) : Symbols := steps.foldl construct {}

/-- What all steps keep: superclasses are older classes, the base of a category is a class, what is
incorporated is a protocol, protocols have names, and their methods are found by their selectors. -/
structure IsBuilt (s : Symbols) : Prop where
  super : ∀ {id up}, s.Super id up → up < id ∧ (s.class? up).isSome = true
  base : ∀ {id c base}, s.class? id = some c → c.base = some base → (s.class? base).isSome = true
  incorporates : ∀ {id other}, s.Incorporates id other → (s.protocol? other).isSome = true
  named : ∀ {id p}, s.protocol? id = some p → ∃ name, p.name = .str name
  keyed : ∀ {id p}, s.protocol? id = some p → ∀ kind, (p.required kind).IsKeyed

variable {s s' : Symbols} {id other : DefinitionId}

theorem IsBuilt.empty : ({} : Symbols).IsBuilt where
  super h := by cases h
  base h := by cases h
  incorporates := by
    rintro id other ⟨p, hp, _⟩
    cases hp
  named h := by cases h
  keyed h := by cases h

theorem Revises.isSome_class? (h : Revises s s') (hid : (s.class? id).isSome = true) :
    (s'.class? id).isSome = true := by
  have hmap := congrArg Option.isSome (h.class? id)
  rwa [Option.isSome_map, Option.isSome_map, hid] at hmap

theorem Revises.isSome_protocol? (h : Revises s s') (hid : (s.protocol? id).isSome = true) :
    (s'.protocol? id).isSome = true := by
  have hmap := congrArg Option.isSome (h.protocol? id)
  rwa [Option.isSome_map, Option.isSome_map, hid] at hmap

/-- Other members of definitions make no difference, if methods are still found by their selectors.
-/
theorem IsBuilt.revise (hs : s.IsBuilt) (h : Revises s s')
    (hkeyed : ∀ {id p}, s'.protocol? id = some p → ∀ kind, (p.required kind).IsKeyed) :
    s'.IsBuilt where
  super hsuper := by
    rw [h.super] at hsuper
    exact ⟨(hs.super hsuper).1, h.isSome_class? (hs.super hsuper).2⟩
  base hc hbase := by
    obtain ⟨d, hd, hbare⟩ := h.exists_class hc
    have hsame : (bare _).base = (bare d).base := congrArg ClassDef.base hbare
    exact h.isSome_class? (hs.base hd (hsame.symm.trans hbase))
  incorporates hi := by
    rw [h.incorporates] at hi
    exact h.isSome_protocol? (hs.incorporates hi)
  named hp := by
    obtain ⟨q, hq, hname, _⟩ := h.exists_protocol hp
    exact hname ▸ hs.named hq
  keyed := hkeyed

theorem IsBuilt.modifyClass (hs : s.IsBuilt) {f : ClassDef → ClassDef}
    (hf : ∀ c, bare (f c) = bare c) : (s.modifyClass id f).IsBuilt :=
  hs.revise (revises_modifyClass hf) fun hp => hs.keyed (protocol?_modifyClass f _ ▸ hp)

theorem isSome_new_class? (d : Definition) (h : (s.class? id).isSome = true) :
    ((s.new d).2.class? id).isSome = true := by
  obtain ⟨c, hc⟩ := Option.isSome_iff_exists.1 h
  exact Option.isSome_iff_exists.2 ⟨c, class?_new d hc⟩

theorem isSome_new_protocol? (d : Definition) (h : (s.protocol? id).isSome = true) :
    ((s.new d).2.protocol? id).isSome = true := by
  obtain ⟨p, hp⟩ := Option.isSome_iff_exists.1 h
  exact Option.isSome_iff_exists.2 ⟨p, protocol?_new d hp⟩

theorem IsBuilt.newClass (hs : s.IsBuilt) {c : ClassDef}
    (hsuper : ∀ up, c.superclass = some up → (s.class? up).isSome = true)
    (hbase : ∀ base, c.base = some base → (s.class? base).isSome = true) :
    (s.new (.classDef c)).2.IsBuilt where
  super h := by
    rcases super_new_cases h with h | ⟨rfl, d, hd, hup⟩
    · exact ⟨(hs.super h).1, isSome_new_class? _ (hs.super h).2⟩
    · cases hd
      obtain ⟨e, he⟩ := Option.isSome_iff_exists.1 (hsuper _ hup)
      exact ⟨lt_size_of_class? he, isSome_new_class? _ (hsuper _ hup)⟩
  base hd hb := by
    rcases class?_new_cases hd with hd | ⟨_, h⟩
    · exact isSome_new_class? _ (hs.base hd hb)
    · cases h
      exact isSome_new_class? _ (hbase _ hb)
  incorporates h := by
    rcases incorporates_new_cases h with h | ⟨_, p, hp, _⟩
    · exact isSome_new_protocol? _ (hs.incorporates h)
    · cases hp
  named hp := by
    rcases protocol?_new_cases hp with hp | ⟨_, h⟩
    · exact hs.named hp
    · cases h
  keyed hp := by
    rcases protocol?_new_cases hp with hp | ⟨_, h⟩
    · exact hs.keyed hp
    · cases h

theorem IsBuilt.newProtocol (hs : s.IsBuilt) (name : String) (node : Value)
    {incorporated : List ProtocolId}
    (hall : ∀ id ∈ incorporated, (s.protocol? id).isSome = true) :
    (s.new (.protocolDef { name := .str name, node, incorporated })).2.IsBuilt where
  super h := by
    rcases super_new_cases h with h | ⟨_, c, hc, _⟩
    · exact ⟨(hs.super h).1, isSome_new_class? _ (hs.super h).2⟩
    · cases hc
  base hc hb := by
    rcases class?_new_cases hc with hc | ⟨_, h⟩
    · exact isSome_new_class? _ (hs.base hc hb)
    · cases h
  incorporates h := by
    rcases incorporates_new_cases h with h | ⟨_, p, hp, hother⟩
    · exact isSome_new_protocol? _ (hs.incorporates h)
    · cases hp
      exact isSome_new_protocol? _ (hall _ hother)
  named hp := by
    rcases protocol?_new_cases hp with hp | ⟨_, h⟩
    · exact hs.named hp
    · exact ⟨name, by rw [← Definition.protocolDef.inj h]⟩
  keyed hp kind := by
    rcases protocol?_new_cases hp with hp | ⟨_, h⟩
    · exact hs.keyed hp kind
    · rw [← Definition.protocolDef.inj h]
      cases kind with
      | ofInstance => exact .empty
      | ofClass => exact .empty

theorem protocol?_modifyProtocol_cases {f : ProtocolDef → ProtocolDef} {p : ProtocolDef}
    (hp : (s.modifyProtocol id f).protocol? other = some p) :
    ∃ q, s.protocol? other = some q ∧ (p = q ∨ other = id ∧ p = f q) := by
  rw [protocol?_modifyProtocol] at hp
  split at hp
  · rename_i hid
    obtain ⟨q, hq, rfl⟩ := Option.map_eq_some_iff.1 hp
    exact ⟨q, hq, .inr ⟨hid.symm, rfl⟩⟩
  · exact ⟨p, hp, .inl rfl⟩

theorem isSome_modifyProtocol (f : ProtocolDef → ProtocolDef)
    (h : (s.protocol? other).isSome = true) :
    ((s.modifyProtocol id f).protocol? other).isSome = true := by
  rw [protocol?_modifyProtocol]
  split
  · rwa [Option.isSome_map]
  · exact h

theorem IsBuilt.incorporate (hs : s.IsBuilt) (h : (s.protocol? other).isSome = true) :
    (s.modifyProtocol id fun p => { p with incorporated := p.incorporated ++ [other] }).IsBuilt
      where
  super := by
    intro j up hsuper
    rw [Super, class?_modifyProtocol] at hsuper
    rw [class?_modifyProtocol]
    exact hs.super hsuper
  base hc hb := by
    rw [class?_modifyProtocol] at hc ⊢
    exact hs.base hc hb
  incorporates := by
    rintro j k ⟨p, hp, hk⟩
    refine isSome_modifyProtocol _ ?_
    obtain ⟨q, hq, rfl | ⟨_, rfl⟩⟩ := protocol?_modifyProtocol_cases hp
    · exact hs.incorporates ⟨p, hq, hk⟩
    · rcases List.mem_append.1 hk with hk | hk
      · exact hs.incorporates ⟨q, hq, hk⟩
      · rwa [List.mem_singleton.1 hk]
  named hp := by
    obtain ⟨q, hq, rfl | ⟨_, rfl⟩⟩ := protocol?_modifyProtocol_cases hp
    · exact hs.named hq
    · exact (hs.named hq :)
  keyed hp kind := by
    obtain ⟨q, hq, rfl | ⟨_, rfl⟩⟩ := protocol?_modifyProtocol_cases hp
    · exact hs.keyed hq kind
    · cases kind with
      | ofInstance => exact hs.keyed hq .ofInstance
      | ofClass => exact hs.keyed hq .ofClass

theorem required_addMethod (p : ProtocolDef) (m : Method) (kind k : MethodKind)
    (isRequired : Bool) : (p.addMethod m kind isRequired).required k =
      if k = kind ∧ isRequired = true then (p.required k).set m.key m else p.required k := by
  cases kind <;> cases k <;> cases isRequired <;> rfl

theorem IsBuilt.addMethodTo (hs : s.IsBuilt) (m : Method) (kind : MethodKind) (isRequired : Bool) :
    (s.addMethodTo id m kind isRequired).IsBuilt := by
  unfold Symbols.addMethodTo
  split
  · have hown : (s.modifyClass id (·.mapMethods kind (·.set m.key m))).IsBuilt :=
      hs.modifyClass fun c => bare_mapMethods c kind _
    unfold Symbols.addMethod
    dsimp only
    split
    · exact hown.modifyClass fun c => bare_mapMethods c kind _
    · exact hown
  · refine hs.revise (revises_addProtocolMethod s id m kind isRequired) fun hp k => ?_
    obtain ⟨q, hq, rfl | ⟨_, rfl⟩⟩ := protocol?_modifyProtocol_cases hp
    · exact hs.keyed hq k
    · rw [required_addMethod]
      split
      · exact (hs.keyed hq k).set m
      · exact hs.keyed hq k

theorem IsBuilt.construct (hs : s.IsBuilt) (step : Construction) : (s.construct step).IsBuilt := by
  cases step with
  | newClass name superclass category base node =>
    rw [Symbols.construct]
    split
    · rename_i h
      refine hs.newClass (fun up hup => ?_) fun b hb => ?_
      · exact (Option.all_eq_true ..).1 h.1 up hup
      · exact (Option.all_eq_true ..).1 h.2 b hb
    · exact hs
  | newProtocol name incorporated node =>
    rw [Symbols.construct]
    split
    · rename_i h
      exact hs.newProtocol name node (List.all_eq_true.1 h)
    · exact hs
  | incorporate id other =>
    rw [Symbols.construct]
    split
    · rename_i h
      exact hs.incorporate h
    · exact hs
  | addMethod id selector types node kind isRequired =>
    rw [Symbols.construct]
    split
    · exact hs.addMethodTo _ kind isRequired
    · exact hs
  | conform id name protocol =>
    rw [Symbols.construct]
    split
    · exact hs.modifyClass fun c => rfl
    · exact hs

theorem isBuilt_build (steps : List Construction) : (build steps).IsBuilt :=
  List.foldlRecOn steps construct IsBuilt.empty fun _ hs step _ => hs.construct step

end Symbols

end ObjectiveJ
