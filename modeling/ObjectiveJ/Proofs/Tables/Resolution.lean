import ObjectiveJ.Proofs.Tables.Conformance

/-!
# Which method a class has

A method is found in two ways. Either a category, the class that it extends and the superclasses of
that are searched one after another, or their tables are merged into one, beginning with the
farthest class. Both come to the same method for every selector, and a search that goes through the
protocols of the classes as well finds a method whenever there is one (`lookup_eq_merged`).
-/

namespace ObjectiveJ

namespace Table

variable {κ α : Type} [DecidableEq κ]

theorem get?_eq_none {t : Table κ α} {name : κ} (h : name ∉ t.names) : t.get? name = none := by
  rw [← contains_iff_mem, contains, Bool.not_eq_true, Option.isSome_eq_false_iff] at h
  exact Option.isNone_iff_eq_none.1 h

/-- The values of the table that is merged in count. -/
theorem get?_merge {t other : Table κ α} (h : other.names.Nodup) (name : κ) :
    (t.merge other).get? name = (other.get? name).or (t.get? name) := by
  obtain ⟨entries⟩ := other
  induction entries generalizing t with
  | nil => rfl
  | cons e rest ih =>
    obtain ⟨k, v⟩ := e
    obtain ⟨hk, hrest⟩ := List.nodup_cons.1 h
    change ((t.set k v).merge ⟨rest⟩).get? name = _
    rw [ih hrest]
    by_cases hname : name = k
    · subst hname
      rw [get?_eq_none (t := ⟨rest⟩) hk, get?_set_self]
      simp [get?]
    · have hne : (name == k) = false := beq_false_of_ne hname
      rw [get?_set_ne _ hname]
      simp only [get?, List.lookup_cons, hne]

theorem nodup_names_setDefault {t : Table κ α} (h : t.names.Nodup) (name : κ) (value : α) :
    (t.setDefault name value).names.Nodup := by
  rw [setDefault]
  split
  · exact h
  · exact nodup_names_set h name value

end Table

/-! ### Searches -/

namespace Search

variable {α β : Type} {bs : List β}

/-- A search in places that all answer comes to the first thing found. -/
theorem among_some (f : β → Option α) (bs : List β) :
    among (fun b => some (f b)) bs = some (bs.findSome? f) := by
  induction bs with
  | nil => rfl
  | cons b rest ih =>
    rw [among, List.findSome?_cons]
    cases f b with
    | none => exact ih
    | some a => rfl

theorem among_ne_none {f : β → Search α} (h : ∀ b ∈ bs, f b ≠ none) : among f bs ≠ none := by
  induction bs with
  | nil => nofun
  | cons b rest ih =>
    rw [among]
    split
    · exact ih fun c hc => h c (.tail _ hc)
    · exact h b (.head _)

/-- A search that does not fail finds something, if there is something in one of the places. -/
theorem exists_among {f : β → Search α} (h : ∀ b ∈ bs, f b ≠ none) {b : β} {a : α} (hb : b ∈ bs)
    (ha : f b = some (some a)) : ∃ a', among f bs = some (some a') := by
  match hfound : among f bs with
  | none => exact absurd hfound (among_ne_none h)
  | some none =>
    have hnone := Symbols.among_eq_none hfound b hb
    rw [ha] at hnone
    cases hnone
  | some (some a') => exact ⟨a', rfl⟩

end Search

theorem Trail.search_eq {α : Type} {t : Trail} (h : t.isWhole = true) (f : Definition → Search α) :
    t.search f = Search.among f t.members := by
  unfold search
  split
  · rename_i hnone
    rw [if_pos h, hnone]
  · rfl

/-! ### Classes as they are put together -/

theorem ClassDef.methods_mapMethods (c : ClassDef) (kind k : MethodKind)
    (g : Table Key Method → Table Key Method) :
    (c.mapMethods kind g).methods k = if k = kind then g (c.methods k) else c.methods k := by
  cases kind <;> cases k <;> rfl

/-- A class with each selector once in its tables, and with protocols that are there. -/
structure ClassDef.IsFurnished (c : ClassDef) (s : Symbols) : Prop where
  nodup : ∀ kind, (c.methods kind).names.Nodup
  conforms : ∀ p ∈ c.protocols.values, (s.protocol? p).isSome = true

namespace Symbols

variable {s s' : Symbols} {id : DefinitionId} {kind : MethodKind} {selector : Key}

def IsFurnished (s : Symbols) : Prop := ∀ id c, s.class? id = some c → c.IsFurnished s

theorem IsFurnished.modifyClass (hs : s.IsFurnished) {f : ClassDef → ClassDef}
    (hf : ∀ c : ClassDef, c.IsFurnished s → (f c).IsFurnished s) :
    (s.modifyClass id f).IsFurnished := by
  intro j c hc
  obtain ⟨d, hd, hcases⟩ := class?_modifyClass_cases hc
  have hfurnished : c.IsFurnished s := by
    rcases hcases with rfl | rfl
    · exact hs j c hd
    · exact hf d (hs j d hd)
  exact ⟨hfurnished.nodup,
    fun p hp => by rw [protocol?_modifyClass]; exact hfurnished.conforms p hp⟩

theorem IsFurnished.modifyProtocol (hs : s.IsFurnished) (f : ProtocolDef → ProtocolDef) :
    (s.modifyProtocol id f).IsFurnished := by
  intro j c hc
  rw [class?_modifyProtocol] at hc
  exact ⟨(hs j c hc).nodup, fun p hp => isSome_modifyProtocol f ((hs j c hc).conforms p hp)⟩

theorem IsFurnished.new (hs : s.IsFurnished) {d : Definition}
    (hd : ∀ c, d = .classDef c → bare c = c) : (s.new d).2.IsFurnished := by
  intro j c hc
  rcases class?_new_cases hc with hc | ⟨_, hnew⟩
  · exact ⟨(hs j c hc).nodup, fun p hp => isSome_new_protocol? d ((hs j c hc).conforms p hp)⟩
  · rw [← hd c hnew]
    refine ⟨fun kind => ?_, nofun⟩
    cases kind with
    | ofInstance => exact List.nodup_nil
    | ofClass => exact List.nodup_nil

theorem IsFurnished.mapMethods (hs : s.IsFurnished) (kind : MethodKind)
    {g : Table Key Method → Table Key Method} (hg : ∀ t, t.names.Nodup → (g t).names.Nodup) :
    (s.modifyClass id (·.mapMethods kind g)).IsFurnished := by
  refine hs.modifyClass fun c hc => ⟨fun k => ?_, ?_⟩
  · rw [ClassDef.methods_mapMethods]
    split
    · exact hg _ (hc.nodup k)
    · exact hc.nodup k
  · rw [protocols_mapMethods]
    exact hc.conforms

theorem IsFurnished.addMethodTo (hs : s.IsFurnished) (m : Method) (kind : MethodKind)
    (isRequired : Bool) : (s.addMethodTo id m kind isRequired).IsFurnished := by
  unfold Symbols.addMethodTo
  split
  · have hown : (s.modifyClass id (·.mapMethods kind (·.set m.key m))).IsFurnished :=
      hs.mapMethods kind fun t ht => Table.nodup_names_set ht m.key m
    unfold Symbols.addMethod
    dsimp only
    split
    · exact hown.mapMethods kind fun t ht => Table.nodup_names_setDefault ht m.key m
    · exact hown
  · exact hs.modifyProtocol _

theorem mem_values_set {t : NameTable DefinitionId} {key : Key} {name : Value}
    {value p : DefinitionId}
    (h : p ∈ (t.set key name value).values) : p ∈ t.values ∨ p = value := by
  obtain ⟨⟨spelled, q⟩, hq, rfl⟩ := List.mem_map.1 h
  obtain ⟨e, he, heq⟩ := List.mem_map.1 hq
  rcases Table.mem_setEntry he with he | rfl
  · exact .inl (List.mem_map.2 ⟨_, List.mem_map.2 ⟨e, he, heq⟩, rfl⟩)
  · exact .inr (congrArg Prod.snd heq).symm

theorem IsFurnished.construct (hs : s.IsFurnished) (step : Construction) :
    (s.construct step).IsFurnished := by
  cases step with
  | newClass name superclass category base node =>
    rw [Symbols.construct]
    split
    · exact hs.new fun c hc => by rw [← Definition.classDef.inj hc]; rfl
    · exact hs
  | newProtocol name incorporated node =>
    rw [Symbols.construct]
    split
    · exact hs.new (by rintro _ ⟨⟩)
    · exact hs
  | incorporate id other =>
    rw [Symbols.construct]
    split
    · exact hs.modifyProtocol _
    · exact hs
  | addMethod id selector types node kind isRequired =>
    rw [Symbols.construct]
    split
    · exact hs.addMethodTo _ kind isRequired
    · exact hs
  | conform id name protocol =>
    rw [Symbols.construct]
    split
    · rename_i hprotocol
      refine hs.modifyClass fun c hc => ⟨hc.nodup, fun p hp => ?_⟩
      rcases mem_values_set hp with hp | rfl
      · exact hc.conforms p hp
      · exact hprotocol
    · exact hs

theorem isFurnished_build (steps : List Construction) : (build steps).IsFurnished :=
  List.foldlRecOn steps construct (nofun : IsFurnished {}) fun _ hs step _ => hs.construct step

/-! ### The two ways to find a method -/

/-- The tables of classes merged from the last to the first have what is found first. -/
theorem get?_foldl_merge {cs : List ClassDef} (hcs : ∀ c ∈ cs, (c.methods kind).names.Nodup)
    (selector : Key) :
    (cs.reverse.foldl (fun t c => t.merge (c.methods kind)) ({} : Table Key Method)).get? selector =
      cs.findSome? fun c => (c.methods kind).get? selector := by
  induction cs with
  | nil => rfl
  | cons c rest ih =>
    rw [List.reverse_cons, List.foldl_append, List.foldl_cons, List.foldl_nil,
      Table.get?_merge (hcs c (.head _)), ih fun d hd => hcs d (.tail _ hd),
      List.findSome?_cons]
    cases (c.methods kind).get? selector with
    | none => rfl
    | some m => rfl

theorem IsBuilt.protocolMethod_ne_none (hs : s.IsBuilt) (hid : (s.protocol? id).isSome = true) :
    s.protocolMethod id selector kind ≠ none := by
  obtain ⟨ps, hps, _⟩ := hs.reachable_eq [] [id] fun j hj => by rwa [List.mem_singleton.1 hj]
  rw [protocolMethod, incorporated, hps, Trail.search_eq rfl, Search.among_some]
  exact Option.some_ne_none _

theorem IsBuilt.among_protocols_ne_none (hs : s.IsBuilt) {c : ClassDef} (hc : c.IsFurnished s) :
    Search.among (s.anyMethod · selector kind) c.protocols.values ≠ none := by
  refine Search.among_ne_none fun p hp => ?_
  have hprotocol := hc.conforms p hp
  obtain ⟨q, hq⟩ := Option.isSome_iff_exists.1 hprotocol
  have hnot : s.class? p = none := by rw [class?, definition?_of_protocol? hq]; rfl
  rw [anyMethod, hnot]
  exact hs.protocolMethod_ne_none hprotocol

/-- For every class that is put together step by step, and for every selector and kind: the search
through the lineage comes to what the merged table has, and if that is a method, the search that
goes through the protocols as well finds one. -/
theorem lookup_eq_merged (steps : List Construction) (id : ClassId)
    (hid : ((build steps).class? id).isSome = true) (selector : Key) (kind : MethodKind) :
    ∃ merged, (build steps).allMethods? id kind = some merged ∧
      (build steps).inheritedMethod id selector kind = some (merged.get? selector) ∧
      ((merged.get? selector).isSome = true →
        ∃ m, (build steps).methodWithProtocols id selector kind = some (some m)) := by
  have hs := isBuilt_build steps
  obtain ⟨cs, hcs, hmem⟩ := hs.lineage_eq hid
  have hfurnished : ∀ c ∈ cs, c.IsFurnished (build steps) := by
    intro c hc
    obtain ⟨j, _, hj⟩ := (hmem c).1 hc
    exact isFurnished_build steps j c hj
  have hwhole : ((build steps).lineage id).isWhole = true := by
    change ((build steps).lineage id).members.all _ = true
    rw [hcs]
    simp [Definition.class?]
  have hall := mapM_map_some (f := Definition.class?) (g := .classDef) (fun _ => rfl) cs
  refine ⟨_, by rw [allMethods?, hcs, hall]; rfl, ?_, ?_⟩
  · rw [inheritedMethod, Trail.search_eq hwhole, Search.among_some, hcs, List.findSome?_map,
      get?_foldl_merge fun c hc => (hfurnished c hc).nodup kind]
    rfl
  · rw [get?_foldl_merge fun c hc => (hfurnished c hc).nodup kind, List.findSome?_isSome_iff]
    rintro ⟨c, hc, hown⟩
    obtain ⟨m, hm⟩ := Option.isSome_iff_exists.1 hown
    have hd : Definition.classDef c ∈ ((build steps).lineage id).members := by
      rw [hcs]
      exact List.mem_map_of_mem hc
    have hfound : (Definition.classDef c).ownMethod selector kind = some m := hm
    rw [methodWithProtocols, Trail.search_eq hwhole]
    refine Search.exists_among (fun d hd => ?_) hd (a := m) (by rw [hfound])
    rw [hcs] at hd
    obtain ⟨e, he, rfl⟩ := List.mem_map.1 hd
    cases (Definition.classDef e).ownMethod selector kind with
    | none => exact hs.among_protocols_ne_none (hfurnished e he)
    | some _ => exact Option.some_ne_none _

/-- A method that a class, its subclass and a category of the subclass all have, a protocol of the
category that asks for it, and one of the superclass alone. -/
def overridden : List Construction := [
  .newClass "A" none none none .null, .addMethod 0 "foo" [.str "id"] .null .ofInstance true,
  .addMethod 0 "bar" [.str "int"] .null .ofInstance true, .newClass "B" (some 0) none none .null,
  .newClass "B" (some 0) (some "More") (some 1) .null, .newProtocol "P" [] .null,
  .addMethod 3 "foo" [.str "void"] .null .ofInstance true, .conform 2 "P" 3,
  .addMethod 2 "foo" [.str "float"] .null .ofInstance true]

theorem lookup_overridden_eq_merged : ∃ merged, (build overridden).allMethods? 2 .ofInstance =
    some merged ∧
    (build overridden).inheritedMethod 2 (.text "foo") .ofInstance =
      some (merged.get? (.text "foo")) ∧
    ((merged.get? (.text "foo")).isSome = true →
      ∃ m, (build overridden).methodWithProtocols 2 (.text "foo") .ofInstance = some (some m)) :=
  lookup_eq_merged overridden 2 (by decide +kernel) (.text "foo") .ofInstance

end Symbols

end ObjectiveJ
