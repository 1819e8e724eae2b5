import ObjectiveJ.Proofs.Tables.Construction

/-!
# What a class is missing

A class conforms to a protocol if it has all that the protocol and those that it incorporates
require. Protocols may share what they incorporate and may incorporate each other in a circle. The
list of what is missing names each requirement once: its members are the requirements of the
protocols that are reached, less what the class, the class that it extends and their superclasses
have (`missing_exact`).
-/

namespace ObjectiveJ

/-! ### Merged tables -/

namespace Table

variable {κ α : Type} [DecidableEq κ]

theorem contains_set {t : Table κ α} {name other : κ} {value : α} :
    (t.set name value).contains other = true ↔ other = name ∨ t.contains other = true := by
  by_cases h : other = name
  · subst h
    simp [contains]
  · simp [contains, get?_set_ne _ h, h]

theorem contains_iff_mem {t : Table κ α} {name : κ} : t.contains name = true ↔ name ∈ t.names := by
  obtain ⟨entries⟩ := t
  induction entries with
  | nil => simp [contains, get?, names]
  | cons e rest ih =>
    simp only [contains, get?, names, List.map_cons, List.mem_cons] at ih ⊢
    rw [List.lookup_cons]
    split
    · rename_i h
      simp [eq_of_beq h]
    · rename_i h
      have hne : name ≠ e.1 := by simpa using h
      simp only [ih, hne, false_or]

theorem contains_merge {t other : Table κ α} {name : κ} :
    (t.merge other).contains name = true ↔ t.contains name = true ∨ other.contains name = true := by
  rw [contains_iff_mem (t := other), merge, names]
  generalize other.entries = entries
  induction entries generalizing t with
  | nil => simp
  | cons e rest ih =>
    rw [List.foldl_cons, ih, contains_set, List.map_cons, List.mem_cons]
    exact ⟨fun h => h.elim (fun h => h.elim (.inr ∘ .inl) .inl) (.inr ∘ .inr),
      fun h => h.elim (.inl ∘ .inr) fun h => h.elim (.inl ∘ .inl) .inr⟩

end Table

namespace Symbols

variable {r : Requirement} {rs : List Requirement}

variable {s : Symbols} {id : DefinitionId} {protocols : List ProtocolId}

/-! ### The methods of a class -/

/-- A class in which the methods of another one are looked for: itself, or the class that it extends
if it is a category, or a superclass. -/
def InLineage (s : Symbols) (id j : ClassId) : Prop :=
  j = id ∨ Relation.ReflTransGen s.Super (((s.class? id).bind (·.base)).getD id) j

/-- A class has a method of a kind, its own or one that it extends or inherits. -/
def Implements (s : Symbols) (id : ClassId) (kind : MethodKind) (selector : Key) : Prop :=
  ∃ j c, s.InLineage id j ∧ s.class? j = some c ∧ (c.methods kind).contains selector = true

theorem definition?_of_class? {c : ClassDef} (h : s.class? id = some c) :
    s.definition? id = some (.classDef c) := by
  obtain ⟨d, hd, hclass⟩ := Option.bind_eq_some_iff.1 h
  cases d with
  | classDef e => rwa [← Option.some.inj hclass]
  | protocolDef p => cases hclass

theorem definition?_of_protocol? {p : ProtocolDef} (h : s.protocol? id = some p) :
    s.definition? id = some (.protocolDef p) := by
  obtain ⟨d, hd, hprotocol⟩ := Option.bind_eq_some_iff.1 h
  cases d with
  | classDef c => cases hprotocol
  | protocolDef q => rwa [← Option.some.inj hprotocol]

/-- The way up from a class is made of classes, namely those that are reached. -/
theorem IsBuilt.superclasses_eq (hs : s.IsBuilt) (hid : (s.class? id).isSome = true) :
    ∃ cs : List ClassDef, s.superclasses id = cs.map .classDef ∧
      ∀ c, c ∈ cs ↔ ∃ j, Relation.ReflTransGen s.Super id j ∧ s.class? j = some c := by
  induction id using Nat.strongRecOn with
  | ind id ih =>
    obtain ⟨c, hc⟩ := Option.isSome_iff_exists.1 hid
    rw [superclasses, definition?_of_class? hc]
    dsimp only [Definition.class?, Option.bind_some]
    cases hup : c.superclass with
    | none =>
      refine ⟨[c], rfl, fun d => ⟨fun hd => ?_, ?_⟩⟩
      · obtain rfl := List.mem_singleton.1 hd
        exact ⟨id, .refl, hc⟩
      · rintro ⟨j, hj, hd⟩
        rcases Relation.ReflTransGen.cases_head hj with rfl | ⟨k, hk, _⟩
        · exact List.mem_singleton.2 (Option.mem_unique hd hc)
        · rw [Super, hc, Option.bind_some, hup] at hk
          cases hk
    | some up =>
      have hsuper : s.Super id up := by rw [Super, hc, Option.bind_some, hup]
      obtain ⟨hlt, hclass⟩ := hs.super hsuper
      obtain ⟨cs, hcs, hmem⟩ := ih up hlt hclass
      refine ⟨c :: cs, by simp only [hlt, if_true, hcs, List.map_cons], fun d => ?_⟩
      rw [List.mem_cons, hmem]
      constructor
      · rintro (rfl | ⟨j, hj, hd⟩)
        · exact ⟨id, .refl, hc⟩
        · exact ⟨j, .head hsuper hj, hd⟩
      · rintro ⟨j, hj, hd⟩
        rcases Relation.ReflTransGen.cases_head hj with rfl | ⟨k, hk, hj⟩
        · exact .inl (Option.mem_unique hd hc)
        · obtain rfl := Option.mem_unique hsuper hk
          exact .inr ⟨j, hj, hd⟩

theorem IsBuilt.lineage_eq (hs : s.IsBuilt) (hid : (s.class? id).isSome = true) :
    ∃ cs : List ClassDef, (s.lineage id).members = cs.map .classDef ∧
      ∀ c, c ∈ cs ↔ ∃ j, s.InLineage id j ∧ s.class? j = some c := by
  obtain ⟨c, hc⟩ := Option.isSome_iff_exists.1 hid
  rw [lineage, definition?_of_class? hc]
  dsimp only [Definition.class?, Option.bind_some]
  cases hbase : c.base with
  | none =>
    obtain ⟨cs, hcs, hmem⟩ := hs.superclasses_eq hid
    refine ⟨cs, hcs, fun d => (hmem d).trans ?_⟩
    simp only [InLineage, hc, Option.bind_some, hbase, Option.getD_none]
    exact exists_congr fun j => and_congr_left fun _ =>
      ⟨.inr, fun h => h.elim (fun h => h ▸ .refl) fun h => h⟩
  | some base =>
    obtain ⟨cs, hcs, hmem⟩ := hs.superclasses_eq (hs.base hc hbase)
    refine ⟨c :: cs, by simp only [hcs, List.map_cons], fun d => ?_⟩
    simp only [InLineage, hc, Option.bind_some, hbase, Option.getD_some, List.mem_cons, hmem]
    constructor
    · rintro (rfl | ⟨j, hj, hd⟩)
      · exact ⟨id, .inl rfl, hc⟩
      · exact ⟨j, .inr hj, hd⟩
    · rintro ⟨j, rfl | hj, hd⟩
      · exact .inl (Option.mem_unique hd hc)
      · exact .inr ⟨j, hj, hd⟩

theorem mapM_map_some {α β : Type} {f : β → Option α} {g : α → β} (h : ∀ a, f (g a) = some a)
    (as : List α) : (as.map g).mapM f = some as := by
  induction as with
  | nil => rfl
  | cons a rest ih =>
    rw [List.map_cons, List.mapM_cons, h, ih]
    rfl

theorem contains_foldl_merge (cs : List ClassDef) (kind : MethodKind) (selector : Key)
    (t : Table Key Method) :
    (cs.foldl (fun t c => t.merge (c.methods kind)) t).contains selector = true ↔
      t.contains selector = true ∨ ∃ c ∈ cs, (c.methods kind).contains selector = true := by
  induction cs generalizing t with
  | nil => simp
  | cons c rest ih => rw [List.foldl_cons, ih, Table.contains_merge,
      List.exists_mem_cons_iff, or_assoc]

/-- The merged table of a class has the selectors that the class implements. -/
theorem IsBuilt.allMethods? (hs : s.IsBuilt) (hid : (s.class? id).isSome = true)
    (kind : MethodKind) : ∃ t, s.allMethods? id kind = some t ∧
      ∀ selector, t.contains selector = true ↔ s.Implements id kind selector := by
  obtain ⟨cs, hcs, hmem⟩ := hs.lineage_eq hid
  have hall := mapM_map_some (f := Definition.class?) (g := .classDef) (fun _ => rfl) cs
  refine ⟨_, by rw [Symbols.allMethods?, hcs, hall]; rfl, fun selector => ?_⟩
  rw [contains_foldl_merge]
  simp only [List.mem_reverse, hmem]
  constructor
  · rintro (h | ⟨c, ⟨j, hj, hc⟩, h⟩)
    · cases h
    · exact ⟨j, c, hj, hc, h⟩
  · rintro ⟨j, c, hj, hc, h⟩
    exact .inr ⟨c, ⟨j, hj, hc⟩, h⟩

/-! ### The protocols that are reached -/

/-- A protocol of a list, or one that is incorporated on the way from there. -/
def Reached (s : Symbols) (protocols : List ProtocolId) (id : ProtocolId) : Prop :=
  ∃ start ∈ protocols, Relation.ReflTransGen s.Incorporates start id

/-- Different protocols that are reached from a list have different names. -/
def NamesIdentify (s : Symbols) (protocols : List ProtocolId) : Prop :=
  ∀ ⦃i j p q⦄, s.Reached protocols i → s.Reached protocols j → s.protocol? i = some p →
    s.protocol? j = some q → p.name = q.name → i = j

/-- A name has been seen, or it is that of one of some protocols. -/
def IsCovered (seen : List Key) (ps : List ProtocolDef) (p : ProtocolDef) : Prop :=
  nameKey (.protocolDef p) ∈ seen ∨ ∃ q ∈ ps, nameKey (.protocolDef q) = nameKey (.protocolDef p)

theorem IsCovered.cons {seen : List Key} {ps : List ProtocolDef} {p q : ProtocolDef}
    (h : IsCovered (nameKey (.protocolDef q) :: seen) ps p) : IsCovered seen (q :: ps) p := by
  rcases h with h | ⟨r, hr, hname⟩
  · rcases List.mem_cons.1 h with h | h
    · exact .inr ⟨q, .head _, h.symm⟩
    · exact .inl h
  · exact .inr ⟨r, List.mem_cons_of_mem _ hr, hname⟩

/-- What the search for protocols comes to: each of them is reached from the queue, and those in the
queue and all that they incorporate are covered. -/
structure Closure (s : Symbols) (seen : List Key) (queue : List ProtocolId)
    (ps : List ProtocolDef) : Prop where
  sound : ∀ p ∈ ps, ∃ j, s.Reached queue j ∧ s.protocol? j = some p
  queue : ∀ id ∈ queue, ∀ p, s.protocol? id = some p → IsCovered seen ps p
  closed : ∀ q ∈ ps, ∀ id ∈ q.incorporated, ∀ p, s.protocol? id = some p → IsCovered seen ps p

variable {seen : List Key} {queue rest : List ProtocolId} {ps : List ProtocolDef} {p : ProtocolDef}

theorem Reached.mono (h : s.Reached queue id) (hsub : queue ⊆ rest) : s.Reached rest id := by
  obtain ⟨start, hstart, hpath⟩ := h
  exact ⟨start, hsub hstart, hpath⟩

theorem Closure.skip (h : s.Closure seen rest ps) (hp : s.protocol? id = some p)
    (hseen : nameKey (.protocolDef p) ∈ seen) : s.Closure seen (id :: rest) ps where
  sound q hq := by
    obtain ⟨j, hj, hq⟩ := h.sound q hq
    exact ⟨j, hj.mono (List.subset_cons_self _ _), hq⟩
  queue j hj q hq := by
    rcases List.mem_cons.1 hj with rfl | hj
    · exact .inl (Option.mem_unique hp hq ▸ hseen)
    · exact h.queue j hj q hq
  closed := h.closed

/-- A new protocol comes first, and what it incorporates is searched after the rest. -/
theorem Closure.visit (hp : s.protocol? id = some p)
    (h : s.Closure (nameKey (.protocolDef p) :: seen) (rest ++ p.incorporated) ps) :
    s.Closure seen (id :: rest) (p :: ps) where
  sound q hq := by
    rcases List.mem_cons.1 hq with rfl | hq
    · exact ⟨id, ⟨id, .head _, .refl⟩, hp⟩
    · obtain ⟨j, ⟨start, hstart, hpath⟩, hq⟩ := h.sound q hq
      refine ⟨j, ?_, hq⟩
      rcases List.mem_append.1 hstart with hstart | hstart
      · exact ⟨start, List.mem_cons_of_mem _ hstart, hpath⟩
      · exact ⟨id, .head _, .head ⟨p, hp, hstart⟩ hpath⟩
  queue j hj q hq := by
    rcases List.mem_cons.1 hj with rfl | hj
    · exact .inr ⟨p, .head _, by rw [Option.mem_unique hp hq]⟩
    · exact (h.queue j (List.mem_append_left _ hj) q hq).cons
  closed q hq j hj r hr := by
    rcases List.mem_cons.1 hq with rfl | hq
    · exact (h.queue j (List.mem_append_right _ hj) r hr).cons
    · exact (h.closed q hq j hj r hr).cons

/-- The search meets protocols only, and it ends with all that it has to find. -/
theorem IsBuilt.reachable_eq (hs : s.IsBuilt) (seen : List Key) (queue : List ProtocolId)
    (hqueue : ∀ id ∈ queue, (s.protocol? id).isSome = true) :
    ∃ ps : List ProtocolDef, s.reachable seen queue = ⟨ps.map .protocolDef, true⟩ ∧
      s.Closure seen queue ps := by
  fun_induction reachable s seen queue with
  | case1 seen => exact ⟨[], rfl, ⟨nofun, nofun, nofun⟩⟩
  | case2 seen id rest hnone ih =>
    obtain ⟨p, hp⟩ := Option.isSome_iff_exists.1 (hqueue id (.head _))
    rw [definition?_of_protocol? hp] at hnone
    cases hnone
  | case3 seen id rest d hd hkey =>
    obtain ⟨p, hp⟩ := Option.isSome_iff_exists.1 (hqueue id (.head _))
    obtain rfl := Option.mem_unique (definition?_of_protocol? hp) hd
    obtain ⟨name, hname⟩ := hs.named hp
    rw [Definition.name, hname] at hkey
    cases hkey
  | case4 seen id rest d hd hkey hseen ih =>
    obtain ⟨p, hp⟩ := Option.isSome_iff_exists.1 (hqueue id (.head _))
    obtain rfl := Option.mem_unique (definition?_of_protocol? hp) hd
    obtain ⟨ps, hps, hclosure⟩ := ih fun j hj => hqueue j (.tail _ hj)
    exact ⟨ps, hps, hclosure.skip hp hseen⟩
  | case5 seen id rest d hd hkey hseen hnone =>
    obtain ⟨p, hp⟩ := Option.isSome_iff_exists.1 (hqueue id (.head _))
    obtain rfl := Option.mem_unique (definition?_of_protocol? hp) hd
    cases hnone
  | case6 seen id rest d hd hkey hseen p hprotocol hlt ih =>
    have hp : s.protocol? id = some p := by rw [protocol?, hd, Option.bind_some, hprotocol]
    obtain rfl := Option.mem_unique (definition?_of_protocol? hp) hd
    have hnext : ∀ j ∈ rest ++ p.incorporated, (s.protocol? j).isSome = true := fun j hj =>
      (List.mem_append.1 hj).elim (fun hj => hqueue j (.tail _ hj))
        fun hj => hs.incorporates ⟨p, hp, hj⟩
    obtain ⟨ps, hps, hclosure⟩ := ih hnext
    exact ⟨p :: ps, by rw [hps]; rfl, hclosure.visit hp⟩

theorem IsBuilt.nameKey_eq (hs : s.IsBuilt) {j : ProtocolId} {q : ProtocolDef}
    (hp : s.protocol? id = some p) (hq : s.protocol? j = some q)
    (h : nameKey (.protocolDef p) = nameKey (.protocolDef q)) : p.name = q.name := by
  obtain ⟨name, hname⟩ := hs.named hp
  obtain ⟨name', hname'⟩ := hs.named hq
  rw [nameKey, nameKey, Definition.name, Definition.name, hname, hname'] at h
  rw [hname, hname', Key.text.inj h]

/-- If names tell protocols apart, a closure from the start has all that is reached. -/
theorem Closure.complete (hs : s.IsBuilt) (hnames : s.NamesIdentify queue)
    (h : s.Closure [] queue ps) (hreached : s.Reached queue id) (hp : s.protocol? id = some p) :
    p ∈ ps := by
  -- a protocol that is covered is the one of its name
  have hcovered {j : ProtocolId} {q : ProtocolDef} (hj : s.Reached queue j)
      (hq : s.protocol? j = some q) (hc : IsCovered [] ps q) : q ∈ ps := by
    rcases hc with hc | ⟨r, hr, hname⟩
    · cases hc
    · obtain ⟨k, hk, hrk⟩ := h.sound r hr
      obtain rfl := hnames hk hj hrk hq (hs.nameKey_eq hrk hq hname)
      rwa [← Option.mem_unique hrk hq]
  obtain ⟨start, hstart, hpath⟩ := hreached
  induction hpath generalizing p with
  | refl => exact hcovered ⟨_, hstart, .refl⟩ hp (h.queue _ hstart p hp)
  | tail hpath hstep ih =>
    obtain ⟨q, hq, hmem⟩ := hstep
    exact hcovered ⟨start, hstart, hpath.tail ⟨q, hq, hmem⟩⟩ hp (h.closed q (ih hq) _ hmem p hp)

/-! ### Requirements -/

/-- What a protocol itself requires. -/
def requirementsOf (p : ProtocolDef) : List Requirement :=
  [MethodKind.ofInstance, .ofClass].flatMap fun kind =>
    (p.required kind).values.map fun method => { method, kind, protocol := p }

theorem mem_requirementsOf :
    r ∈ requirementsOf p ↔ r.protocol = p ∧ r.method ∈ (p.required r.kind).values := by
  obtain ⟨method, kind, protocol⟩ := r
  simp only [requirementsOf, List.mem_flatMap, List.mem_map, List.mem_cons,
    List.not_mem_nil, or_false, Requirement.mk.injEq]
  constructor
  · rintro ⟨_, _, m, hm, rfl, rfl, rfl⟩
    exact ⟨rfl, hm⟩
  · rintro ⟨rfl, hm⟩
    refine ⟨kind, ?_, method, hm, rfl, rfl, rfl⟩
    cases kind with
    | ofInstance => exact .inl rfl
    | ofClass => exact .inr rfl

/-- What tells requirements apart. -/
def Requirement.key (r : Requirement) : Key × Key × MethodKind :=
  (nameKey (.protocolDef r.protocol), r.method.key, r.kind)

theorem IsBuilt.requirements? (hs : s.IsBuilt) (hnames : s.NamesIdentify [id])
    (hid : (s.protocol? id).isSome = true) :
    ∃ rs, s.requirements? id = some rs ∧ ∀ r, r ∈ rs ↔ ∃ j, s.Reached [id] j ∧
      s.protocol? j = some r.protocol ∧ r.method ∈ (r.protocol.required r.kind).values := by
  obtain ⟨ps, hps, hclosure⟩ := hs.reachable_eq [] [id] fun j hj => by
    rwa [List.mem_singleton.1 hj]
  have hall := mapM_map_some (f := Definition.protocol?) (g := .protocolDef) (fun _ => rfl) ps
  refine ⟨ps.flatMap requirementsOf, ?_, fun r => ?_⟩
  · rw [Symbols.requirements?, incorporated, hps]
    dsimp only
    rw [hall]
    rfl
  · simp only [List.mem_flatMap, mem_requirementsOf]
    constructor
    · rintro ⟨p, hp, rfl, hm⟩
      obtain ⟨j, hj, hpj⟩ := hclosure.sound _ hp
      exact ⟨j, hj, hpj, hm⟩
    · rintro ⟨j, hj, hp, hm⟩
      exact ⟨r.protocol, hclosure.complete hs hnames hj hp, rfl, hm⟩

theorem mem_distinct {seen : List (Key × Key × MethodKind)} (h : r ∈ distinct seen rs) :
    r ∈ rs ∧ r.key ∉ seen := by
  induction rs generalizing seen with
  | nil => cases h
  | cons r' rest ih =>
    change r ∈ (if r'.key ∈ seen then distinct seen rest else r' :: distinct (r'.key :: seen) rest)
      at h
    split at h
    · exact ⟨List.mem_cons_of_mem _ (ih h).1, (ih h).2⟩
    · rename_i hnew
      rcases List.mem_cons.1 h with rfl | h
      · exact ⟨.head _, hnew⟩
      · exact ⟨List.mem_cons_of_mem _ (ih h).1, fun hseen => (ih h).2 (.tail _ hseen)⟩

theorem nodup_distinct (seen : List (Key × Key × MethodKind)) (rs : List Requirement) :
    ((distinct seen rs).map Requirement.key).Nodup := by
  induction rs generalizing seen with
  | nil => exact List.nodup_nil
  | cons r rest ih =>
    change ((if r.key ∈ seen then distinct seen rest else r :: distinct (r.key :: seen) rest).map
      Requirement.key).Nodup
    split
    · exact ih seen
    · refine List.nodup_cons.2 ⟨fun h => ?_, ih _⟩
      obtain ⟨r', hr', hkey⟩ := List.mem_map.1 h
      exact (mem_distinct hr').2 (hkey ▸ (.head _))

theorem exists_mem_distinct {seen : List (Key × Key × MethodKind)} (h : r ∈ rs)
    (hseen : r.key ∉ seen) : ∃ r' ∈ distinct seen rs, r'.key = r.key := by
  induction rs generalizing seen with
  | nil => cases h
  | cons r' rest ih =>
    change ∃ x ∈ (if r'.key ∈ seen then distinct seen rest else r' :: distinct
      (r'.key :: seen) rest), x.key = r.key
    split
    · rename_i hold
      rcases List.mem_cons.1 h with rfl | h
      · exact absurd hold hseen
      · exact ih h hseen
    · by_cases hkey : r.key = r'.key
      · exact ⟨r', .head _, hkey.symm⟩
      · have hrest : r ∈ rest := (List.mem_cons.1 h).resolve_left fun heq => hkey (heq ▸ rfl)
        have hnew : r.key ∉ r'.key :: seen := fun hmem => (List.mem_cons.1 hmem).elim hkey hseen
        obtain ⟨x, hx, hxkey⟩ := ih hrest hnew
        exact ⟨x, List.mem_cons_of_mem _ hx, hxkey⟩

/-- If the key tells requirements apart, each of them stays once. -/
theorem mem_distinct_iff (hinj : ∀ r ∈ rs, ∀ r' ∈ rs, r.key = r'.key → r = r') :
    r ∈ distinct [] rs ↔ r ∈ rs := by
  refine ⟨fun h => (mem_distinct h).1, fun h => ?_⟩
  obtain ⟨r', hr', hkey⟩ := exists_mem_distinct h List.not_mem_nil
  rwa [← hinj r' (mem_distinct hr').1 r h hkey]

/-- A requirement of one of the protocols that are reached from a list. -/
def Requires (s : Symbols) (protocols : List ProtocolId) (r : Requirement) : Prop :=
  ∃ j, s.Reached protocols j ∧ s.protocol? j = some r.protocol ∧
    r.method ∈ (r.protocol.required r.kind).values

theorem IsBuilt.eq_of_key (hs : s.IsBuilt) (hnames : s.NamesIdentify protocols) {r' : Requirement}
    (hr : s.Requires protocols r) (hr' : s.Requires protocols r') (hkey : r.key = r'.key) :
    r = r' := by
  obtain ⟨method, kind, protocol⟩ := r
  obtain ⟨method', kind', protocol'⟩ := r'
  obtain ⟨i, hi, hp, hm⟩ := hr
  obtain ⟨j, hj, hq, hm'⟩ := hr'
  obtain ⟨hname, hmethod, hkind⟩ := by simpa only [Requirement.key, Prod.mk.injEq] using hkey
  obtain rfl := hnames hi hj hp hq (hs.nameKey_eq hp hq hname)
  obtain rfl : protocol = protocol' := Option.mem_unique hp hq
  subst hkind
  obtain rfl : method = method' := (hs.keyed hp kind).eq_of_key hm hm' hmethod
  rfl

theorem IsBuilt.mapM_requirements? (hs : s.IsBuilt) (hnames : s.NamesIdentify protocols)
    (hprotocols : ∀ id ∈ protocols, (s.protocol? id).isSome = true) :
    ∃ required, protocols.mapM s.requirements? = some required ∧
      ∀ r, r ∈ required.flatten ↔ s.Requires protocols r := by
  induction protocols with
  | nil => exact ⟨[], rfl, fun r => ⟨nofun, fun ⟨_, ⟨_, h, _⟩, _⟩ => by cases h⟩⟩
  | cons id rest ih =>
    have hhead {j : ProtocolId} (h : s.Reached [id] j) : s.Reached (id :: rest) j :=
      h.mono fun x hx => List.mem_singleton.1 hx ▸ (.head _)
    have htail {j : ProtocolId} (h : s.Reached rest j) : s.Reached (id :: rest) j :=
      h.mono (List.subset_cons_self _ _)
    have hone : s.NamesIdentify [id] := fun _ _ _ _ hi hj hp hq =>
      hnames (hhead hi) (hhead hj) hp hq
    obtain ⟨rs, hrs, hmem⟩ := hs.requirements? hone (hprotocols id (.head _))
    obtain ⟨more, hmore, hmemMore⟩ := ih
      (fun _ _ _ _ hi hj hp hq => hnames (htail hi) (htail hj) hp hq)
      fun j hj => hprotocols j (.tail _ hj)
    refine ⟨rs :: more, by rw [List.mapM_cons, hrs, hmore]; rfl, fun r => ?_⟩
    rw [List.flatten_cons, List.mem_append, hmem, hmemMore]
    constructor
    · rintro (⟨j, hj, hr⟩ | ⟨j, hj, hr⟩)
      · exact ⟨j, hhead hj, hr⟩
      · exact ⟨j, htail hj, hr⟩
    · rintro ⟨j, ⟨start, hstart, hpath⟩, hr⟩
      rcases List.mem_cons.1 hstart with rfl | hstart
      · exact .inl ⟨j, ⟨_, List.mem_singleton_self _, hpath⟩, hr⟩
      · exact .inr ⟨j, ⟨start, hstart, hpath⟩, hr⟩

/-- For a class and a list of protocols whose names tell them apart, however these incorporate each
other, there is a list of what is missing. It has no repetition, and its members are the
requirements of all protocols that are reached for which the class has no method. -/
theorem missing_exact (steps : List Construction) (id : ClassId) (protocols : List ProtocolId)
    (hid : ((build steps).class? id).isSome = true)
    (hprotocols : ∀ p ∈ protocols, ((build steps).protocol? p).isSome = true)
    (hnames : (build steps).NamesIdentify protocols) :
    ∃ rs, (build steps).missing? id protocols = some rs ∧ rs.Nodup ∧
      ∀ r, r ∈ rs ↔ (build steps).Requires protocols r ∧
        ¬ (build steps).Implements id r.kind r.method.key := by
  have hs := isBuilt_build steps
  obtain ⟨instanceMethods, hinstance, hinstanceMem⟩ := hs.allMethods? hid .ofInstance
  obtain ⟨classMethods, hclass, hclassMem⟩ := hs.allMethods? hid .ofClass
  obtain ⟨required, hrequired, hmem⟩ := hs.mapM_requirements? hnames hprotocols
  have hdistinct {r : Requirement} : r ∈ distinct [] required.flatten ↔
      (build steps).Requires protocols r :=
    (mem_distinct_iff fun r hr r' hr' hkey =>
      hs.eq_of_key hnames ((hmem r).1 hr) ((hmem r').1 hr') hkey).trans (hmem r)
  refine ⟨_, by rw [missing?, hinstance, hclass, hrequired]; rfl, ?_, fun r => ?_⟩
  · exact ((nodup_distinct [] _).of_map Requirement.key).filter _
  · rw [List.mem_filter, hdistinct]
    refine and_congr_right fun _ => ?_
    cases hkind : r.kind with
    | ofInstance => rw [← hinstanceMem, Bool.not_eq_true', Bool.not_eq_true]
    | ofClass => rw [← hclassMem, Bool.not_eq_true', Bool.not_eq_true]

/-- Two protocols that incorporate each other and a third one that incorporates both, a class with
one of the methods that they require, and a subclass. -/
def circle : List Construction := [
  .newProtocol "P" [] .null, .newProtocol "Q" [0] .null, .incorporate 0 1,
  .newProtocol "R" [0, 1] .null, .addMethod 0 "foo" [.str "id"] .null .ofInstance true,
  .addMethod 1 "foo" [.str "id"] .null .ofClass true, .addMethod 2 "bar"
    [.str "id"] .null .ofClass false,
  .newClass "A" none none none .null, .addMethod 3 "foo" [.str "id"] .null .ofInstance true,
  .newClass "B" (some 3) none none .null]

theorem missing_circle_exact : ∃ rs, (build circle).missing? 4 [2, 0] = some rs ∧ rs.Nodup ∧
    ∀ r, r ∈ rs ↔ (build circle).Requires [2, 0] r ∧
      ¬ (build circle).Implements 4 r.kind r.method.key := by
  refine missing_exact circle 4 [2, 0] (by decide +kernel) (by decide +kernel) ?_
  intro i j p q _ _ hp hq hname
  have happart : ∀ i < 5, ∀ j < 5, ((build circle).protocol? i).isSome = true →
      ((build circle).protocol? i).bind (·.name.text?) =
        ((build circle).protocol? j).bind (·.name.text?) → i = j := by decide +kernel
  have hsize : (build circle).store.size = 5 := by decide +kernel
  refine happart i (hsize ▸ lt_size_of_protocol? hp) j (hsize ▸ lt_size_of_protocol? hq) ?_ ?_
  · rw [hp, Option.isSome_some]
  · rw [hp, hq, Option.bind_some, Option.bind_some, hname]

end Symbols

end ObjectiveJ
