import ObjectiveJ.Proofs.Tables.Keep

/-!
# Declarations keep the tables sound

The check for a new name answers yes only if the name is open, and free unless a class is declared.
So what is declared after the check may be registered. A class is pending between the check and its
registration.
-/

namespace ObjectiveJ

open Gen Symbols

variable {s₀ : Symbols} {name : Value} {key : Key}

variable {α β : Type} {P : Symbols → Prop}

/-! ### Names -/

theorem Value.key?_eq_text {v : Value} {s : String} (h : v.key? = some (.text s)) : v = .str s := by
  cases v with
  | data j =>
    rw [Value.key?] at h
    cases j with
    | str t =>
      obtain rfl := Key.text.inj (Option.some.inj h)
      rfl
    | float x =>
      simp only [Json.key?, Key.ofFloat, Option.some.injEq] at h
      split at h <;> cases h
    | null | bool | int | arr | obj => cases h
  | tuple items =>
    rw [Value.key?] at h
    cases items with
    | nil => cases h
    | cons item rest =>
      rw [keyOfItems?] at h
      obtain ⟨first, _, h⟩ := Option.bind_eq_some_iff.1 h
      obtain ⟨more, _, h⟩ := Option.bind_eq_some_iff.1 h
      cases h
  | location l =>
    obtain ⟨file, line, column⟩ := l
    rw [Value.key?, Location.key?] at h
    obtain ⟨_, _, h⟩ := Option.bind_eq_some_iff.1 h
    obtain ⟨_, _, h⟩ := Option.bind_eq_some_iff.1 h
    obtain ⟨_, _, h⟩ := Option.bind_eq_some_iff.1 h
    cases h
  | tree t =>
    obtain ⟨type, span, fields, number⟩ := t
    rw [Value.key?] at h
    cases h
  | list | accessors => cases h

theorem Value.HasPlainNames.isPlain {identifier : Value} (h : identifier.HasPlainNames)
    (hname : identifier.part? "name" = some name) (hkey : name.key? = some key) : key.IsPlain := by
  rintro s rfl
  obtain rfl := Value.key?_eq_text hkey
  cases identifier with
  | tree t =>
    refine h t ?_ s hname
    rw [Value.nodes, Tree.nodes_eq]
    exact .head _
  | accessors => cases hname
  | data | list | tuple | location => cases hname

/-- The key of a category has a plus sign, so it is the name of nothing but a category. -/
theorem ClassDef.not_isPlain_of_category {c : ClassDef} (hcategory : c.category.truthy = true)
    (hkey : c.registeredName.key? = some key) : ¬ key.IsPlain := by
  intro hplain
  rw [registeredName, if_pos hcategory] at hkey
  cases hkey
  exact hplain _ rfl (by simp [String.toList_append])

/-! ### The check for a new name -/

/-- A check that keeps a property of the tables and gives an answer only under a condition. -/
def AnswersIf (P : Symbols → Prop) (answer : α) (C : Prop) (m : Gen α) : Prop :=
  Leads P m (fun a s => P s ∧ (a = answer → C)) P

namespace AnswersIf

variable {C : Prop} {m : Gen α} {k : α → Gen β} {answer b : β}

theorem step (hm : Keeps P m) (hk : ∀ a, AnswersIf P answer C (k a)) :
    AnswersIf P answer C (m >>= k) :=
  Leads.step (fun _ h => h) hm hk

theorem other (h : b ≠ answer) : AnswersIf P answer C (pure b) :=
  Leads.pure fun _ hs => ⟨hs, fun heq => absurd heq h⟩

theorem yes (h : C) : AnswersIf P answer C (pure b) := Leads.pure fun _ hs => ⟨hs, fun _ => h⟩

theorem ignoreDuplicate (what : String) (identifier earlier : Value) :
    AnswersIf P true C (Check.ignoreDuplicate what identifier earlier) := by
  refine step Keeps.get fun s => ?_
  split
  · refine step (keeps_checks.part ..) fun name => step (keeps_checks.warning ..) fun _ => ?_
    split
    · exact step (keeps_checks.note ..) fun _ => other nofun
    · exact other nofun
  · exact other nofun

theorem conflict (node : Tree) (identifier name : Value) (p : Check.Previous) :
    AnswersIf P true C (Check.conflict node identifier name p) := by
  refine step (keeps_checks.error ..) fun _ => ?_
  split
  · exact step (keeps_checks.note ..) fun _ => other nofun
  · exact other nofun

/-- A name that is not that of a class is open if it may be declared. -/
theorem isUniqueName (s : GenState) (frame : FrameId) (node : Tree) (identifier name : Value)
    (key : Key) :
    AnswersIf P true (s.symbols.lookupProtocol key = none ∧ s.symbols.typedefs.get? key = none)
      (Check.isUniqueName s frame node identifier name key) := by
  unfold Check.isUniqueName
  cases hprotocol : s.symbols.lookupProtocol key with
  | some known =>
    dsimp only
    split
    · exact step (keeps_checks.fatalAt _ rfl) fun _ => conflict ..
    · exact conflict ..
  | none =>
    cases s.frames.globalVar frame key with
    | some v =>
      dsimp only
      split
      · exact ignoreDuplicate ..
      · exact conflict ..
    | none =>
      cases htypedef : s.symbols.typedefs.get? key with
      | some t =>
        dsimp only
        split
        · exact ignoreDuplicate ..
        · exact conflict ..
      | none =>
        dsimp only
        split
        · split
          · exact ignoreDuplicate ..
          · exact conflict ..
        · exact yes ⟨rfl, rfl⟩

/-- A class that may be declared over another one is known: it is a category, or it takes the place
of a stub. -/
theorem isUniqueClass (node : Tree) (name : Value) (known : Option ClassDef) :
    AnswersIf P (some true) (known.isSome = true) (Check.isUniqueClass node name known) := by
  refine step (keeps_checks.field ..) fun category => ?_
  split
  · split
    · exact step (keeps_checks.error ..) fun _ => other nofun
    · rename_i hknown
      have hsome : known.isSome = true := by simpa [Option.isSome_iff_ne_none] using hknown
      refine step (keeps_checks.part ..) fun c => step Keeps.get fun s => ?_
      split
      · exact step (keeps_checks.fatalAt _ rfl) fun _ => yes hsome
      · exact yes hsome
  · cases known with
    | none => exact other nofun
    | some known =>
      have hwarn : AnswersIf P (some true) ((some known).isSome = true)
          (Check.warnUnnecessary node name known >>= fun _ => pure (some true)) :=
        step (keeps_checks.judge.cautioned fun hA => hA.warnUnnecessary ..) fun _ => yes rfl
      dsimp only
      split
      · exact step (keeps_checks.fatalAt _ rfl) fun _ => hwarn
      · exact hwarn

/-- A name that may be declared is open, and it is free unless a class is declared. -/
theorem isUnique (h₀ : s₀.Sound) (frame : FrameId) (node : Tree) {identifier : Value}
    (hname : identifier.part? "name" = some name) :
    AnswersIf (· = s₀) true (∃ key, name.key? = some key ∧ s₀.Open key ∧
      (node.type ≠ .classDeclaration → s₀.classes.get? key = none))
      (Check.isUnique frame node identifier) := by
  refine Leads.ofOption_bind (fun _ h => h) fun n hn => ?_
  obtain rfl := Option.mem_unique hname hn
  refine Leads.ofOption_bind (fun _ h => h) fun key hkey => Leads.get fun s hs => ?_
  rw [hs]
  have hother (hclass : node.type ≠ .classDeclaration → s₀.lookupClass key = none) :
      AnswersIf (· = s₀) true (∃ key, name.key? = some key ∧ s₀.Open key ∧
        (node.type ≠ .classDeclaration → s₀.classes.get? key = none))
        (Check.isUniqueName s frame node identifier name key) := by
    refine (isUniqueName s frame node identifier name key).mono (fun _ h => h) (fun b t h => ?_)
      fun _ h => h
    refine ⟨h.1, fun hb => ?_⟩
    obtain ⟨hprotocol, htypedef⟩ := h.2 hb
    rw [hs] at hprotocol htypedef
    exact ⟨key, hkey, ⟨h₀.protocols_get?_eq_none hprotocol, htypedef⟩, fun hne =>
      classes_get?_eq_none h₀.class_key (hclass hne)⟩
  dsimp only
  split
  · rename_i htype
    refine Leads.bind (isUniqueClass ..) fun answer => ?_
    cases answer with
    | some answer =>
      refine Leads.pure fun t ht => ⟨ht.1, fun hyes => ?_⟩
      exact ⟨key, hkey, h₀.open_of_lookupClass (ht.2 (congrArg some hyes)),
        fun hne => absurd htype hne⟩
    | none =>
      exact (hother fun hne => absurd htype hne).mono (fun _ h => h.1) (fun _ _ h => h) fun _ h => h
  · split
    · split
      · exact ignoreDuplicate ..
      · exact conflict ..
    · rename_i hknown
      exact hother fun _ => hknown

end AnswersIf

/-! ### Classes -/

section Classes

variable {id : ClassId} {t : Tree}

theorem Symbols.Sound.defines {s : Symbols} {c : ClassDef} (hs : s.Sound) (hkey : key.IsPlain)
    (hget : s.classId? key = some id) (hc : s.lookupClass key = some c) (hstub : c.isStub = false) :
    s.Defines id := by
  rw [lookupClass, hget, Option.bind_some] at hc
  obtain ⟨d, hd, hname⟩ := hs.class_key hget
  obtain rfl := Option.mem_unique hc hd
  refine ⟨c, key, hc, hstub, ?_, hget⟩
  by_cases hcategory : c.category.truthy = true
  · exact absurd hkey (ClassDef.not_isPlain_of_category hcategory hname)
  · rwa [ClassDef.registeredName, if_neg hcategory] at hname

/-- Soundness as a law, for programs whose names have no plus sign. -/
abbrev soundLaw : Law := tableLaw Sound Tree.HasPlainName

theorem superclass?_leads (h₀ : s₀.Sound) (ht : soundLaw.Owns t) (name : Value) :
    Leads (· = s₀) (Declaration.superclass? t name)
      (fun up s => s = s₀ ∧ ∀ id, up = some id → s₀.Defines id) (· = s₀) := by
  refine Leads.ofOption_bind (fun _ h => h) fun superclass hsuperclass => ?_
  have hnames : superclass.HasPlainNames := ht hsuperclass
  split
  · exact Leads.pure fun s hs => ⟨hs, nofun⟩
  refine Leads.ofOption_bind (fun _ h => h) fun up hup => ?_
  refine Leads.ofOption_bind (fun _ h => h) fun key hkey => Leads.get fun s hs => ?_
  rw [hs]
  dsimp only
  split
  · rename_i id c hget hc
    split
    · exact Leads.fatalAt (fun _ h => h) ..
    · rename_i hstub
      refine Leads.pure fun u hu => ⟨hu, fun _ hid => ?_⟩
      cases hid
      exact h₀.defines (hnames.isPlain hup hkey) hget hc (Bool.eq_false_iff.2 hstub)
  · exact Leads.fatalAt (fun _ h => h) ..

/-- A class whose name is open waits for its registration. -/
theorem newClass_leads (h₀ : s₀.Sound) (ht : soundLaw.Owns t) (name : Value)
    (hopen : ∀ key, name.key? = some key → s₀.Open key) :
    Leads (· = s₀) (Declaration.newClass t name) (fun id s => s.Pending id) Sound := by
  have hsound (s : Symbols) (hs : s = s₀) : s.Sound := hs ▸ h₀
  refine Leads.ofOption_bind hsound fun category _ => ?_
  dsimp only
  split
  · have hsuper := (superclass?_leads h₀ ht name).mono (fun _ h => h) (fun _ _ h => h) hsound
    refine Leads.bind hsuper fun up => Leads.fixed fun s hs => ?_
    obtain ⟨rfl, hup⟩ := hs
    exact Leads.new (h₀.newClass ⟨hup, rfl⟩ hopen)
  · refine Leads.get fun s hs => ?_
    rw [hs]
    refine Leads.ofOption_bind hsound fun key _ => Leads.ofOption_bind hsound fun base _ => ?_
    refine Leads.ofOption_bind hsound fun shown _ =>
      Leads.new (h₀.newClass ⟨fun up hup => h₀.super_defines hup, rfl⟩ ?_)
    intro key hkey
    by_cases hcategory : shown.truthy = true
    · exact Classical.byContradiction fun hno =>
        ClassDef.not_isPlain_of_category hcategory hkey (h₀.plain hno)
    · rw [ClassDef.registeredName, if_neg hcategory] at hkey
      exact hopen key hkey

theorem addProtocols_leads (protocols : List Value) :
    Leads (·.Pending id) (Declaration.addProtocols id protocols)
      (fun _ s => s.Pending id) Sound := by
  have hsound (s : Symbols) (hs : s.Pending id) : s.Sound := hs.toSound
  induction protocols with
  | nil => exact Leads.pure fun _ hs => hs
  | cons protocol rest ih =>
    refine Leads.ofOption_bind hsound fun name _ => Leads.ofOption_bind hsound fun key _ => ?_
    refine Leads.get fun s hs => ?_
    have hfixed (t : Symbols) (ht : t = s.symbols) : t.Sound := ht ▸ hs.toSound
    split
    · rename_i protocol hprotocol
      refine Leads.bind (Leads.modifySymbols fun t ht => ?_) fun _ => ih
      rw [ht]
      exact hs.addProtocol name hprotocol
    · refine Leads.step hfixed (keeps_checks.unknownProtocol name) fun _ => ?_
      refine Leads.step hfixed (keeps_checks.error ..) fun _ => ?_
      exact ih.mono (fun t ht => ht ▸ hs) (fun _ _ h => h) fun _ h => h

theorem addIvar_leads (h₀ : s₀.Pending id) (buffer : Nat) (declaration identifier : Value)
    (hkey : name.key? = some key) (hnew : s₀.findIvar id key = some none) (isLast : Bool) :
    Leads (· = s₀) (Declaration.addIvar id buffer declaration identifier name isLast)
      (fun _ s => s.Pending id) Sound := by
  have hsound (s : Symbols) (hs : s = s₀) : s.Sound := hs ▸ h₀.toSound
  have hrecord (typeName : Value) : Leads (· = s₀)
      (Declaration.recordIvar id buffer declaration name isLast typeName)
        (fun _ s => s.Pending id) Sound := by
    refine Leads.step hsound (Keeps.emit _) fun _ =>
      Leads.ofOption_bind hsound fun accessors _ => ?_
    refine Leads.ofOption_bind hsound fun isOutlet _ => Leads.ofOption_bind hsound fun k hk => ?_
    obtain rfl := Option.mem_unique hkey hk
    refine Leads.bind (Q := fun _ s => s.Pending id) (Leads.modifySymbols fun t ht => ?_) fun _ =>
      Leads.pure fun _ hs => hs
    rw [ht]
    exact h₀.addIvar _ hnew
  have hwrite (type typeName : Value) : Leads (· = s₀)
      (Declaration.writeIvar id buffer declaration identifier name isLast type typeName)
      (fun _ s => s.Pending id) Sound := by
    refine Leads.step hsound (keeps_checks.warner.ivarType _) fun _ => ?_
    refine Leads.step hsound (Keeps.emit _) fun _ => ?_
    exact Leads.step hsound (Keeps.ivarType buffer typeName) fun _ => hrecord _
  refine Leads.ofOption_bind hsound fun type _ => ?_
  dsimp only
  split
  · exact hwrite type _
  · exact Leads.ofOption_bind hsound fun _ _ => hwrite type _

theorem addIvars_leads (buffer : Nat) (declarations : List Value) :
    Leads (·.Pending id) (Declaration.addIvars id buffer declarations) (fun _ s => s.Pending id)
      Sound := by
  have hsound (s : Symbols) (hs : s.Pending id) : s.Sound := hs.toSound
  induction declarations with
  | nil => exact Leads.pure fun _ hs => hs
  | cons declaration rest ih =>
    have hrest (recorded : Bool) : Leads (·.Pending id) (do
        return (← Declaration.addIvars id buffer rest) || recorded)
          (fun _ s => s.Pending id) Sound :=
      Leads.bind ih fun _ => Leads.pure fun _ hs => hs
    refine Leads.ofOption_bind hsound fun identifier _ =>
      Leads.ofOption_bind hsound fun name _ => ?_
    refine Leads.get fun s hs => ?_
    have hfixed (t : Symbols) (ht : t = s.symbols) : t.Sound := ht ▸ hs.toSound
    refine Leads.ofOption_bind hfixed fun key hkey =>
      Leads.ofOption_bind hfixed fun found hfound => ?_
    cases found with
    | some earlier =>
      refine Leads.step hfixed (keeps_checks.error ..) fun _ => ?_
      refine Leads.step hfixed (keeps_checks.note ..) fun _ => ?_
      exact (hrest false).mono (fun t ht => ht ▸ hs) (fun _ _ h => h) fun _ h => h
    | none => exact Leads.bind (addIvar_leads hs buffer declaration identifier hkey hfound _) hrest

theorem writeIvars_leads (ivars : Value) (buffer : Nat) :
    Leads (·.Pending id) (Declaration.writeIvars id ivars buffer)
      (fun _ s => s.Pending id) Sound := by
  have hsound (s : Symbols) (hs : s.Pending id) : s.Sound := hs.toSound
  unfold Declaration.writeIvars
  split
  · exact Leads.pure fun _ hs => hs
  refine Leads.step hsound (Keeps.emit _) fun _ => Leads.step hsound (Keeps.emit _) fun _ => ?_
  refine Leads.ofOption_bind hsound fun vs _ => Leads.bind (addIvars_leads buffer vs) fun _ => ?_
  refine Leads.step hsound (Keeps.emit _) fun _ => Leads.step hsound (Keeps.emit _) fun _ => ?_
  exact Leads.pure fun _ hs => hs

end Classes

/-! ### Protocols and types -/

theorem incorporate_leads (h₀ : s₀.Sound) (buffer : Nat) (isFirst : Bool) (protocols : List Value) :
    Leads (· = s₀) (Declaration.incorporate buffer isFirst protocols)
      (fun found s => s = s₀ ∧ ∀ e ∈ found, s₀.Declares e.2) (· = s₀) := by
  induction protocols generalizing isFirst with
  | nil => exact Leads.pure fun s hs => ⟨hs, nofun⟩
  | cons protocol rest ih =>
    refine Leads.ofOption_bind (fun _ h => h) fun name _ => Leads.get fun s hs => ?_
    refine Leads.ofOption_bind (fun t ht => ht.trans hs) fun key _ => ?_
    rw [hs]
    split
    · rename_i id hid
      refine Leads.step (fun _ h => h) (Keeps.of_law (Law.writeIncorporated ..)) fun _ => ?_
      refine Leads.bind (ih false) fun found => Leads.pure fun t ht => ⟨ht.1, fun e he => ?_⟩
      rcases List.mem_cons.1 he with rfl | he
      · exact h₀.declares hid
      · exact ht.2 e he
    · refine Leads.step (fun _ h => h) (keeps_checks.unknownProtocol name) fun _ => ?_
      exact Leads.step (fun _ h => h) (keeps_checks.error ..) fun _ => ih isFirst

/-- A protocol whose name is free is registered under it. -/
theorem newProtocol_leads (h₀ : s₀.Sound) (t : Tree)
    {incorporated : List ProtocolId} (hdeclares : ∀ other ∈ incorporated, s₀.Declares other)
    (hfree : ∀ key, name.key? = some key →
      s₀.classes.get? key = none ∧ s₀.typedefs.get? key = none ∧ key.IsPlain) :
    Leads (· = s₀) (Declaration.newProtocol t name incorporated) (fun _ => Sound) Sound := by
  let p : ProtocolDef := { name, node := .tree t, incorporated }
  have hsound : (s₀.new (.protocolDef p)).2.Sound := h₀.new ⟨hdeclares, rfl⟩
  refine Leads.bind (Q := fun id s => s = (s₀.new (.protocolDef p)).2 ∧ id = s₀.store.size)
    (.new ⟨rfl, rfl⟩) fun id => Leads.fixed fun s hs => ?_
  obtain ⟨rfl, rfl⟩ := hs
  have hprotocol : (s₀.new (.protocolDef p)).2.protocol? s₀.store.size = some p := by
    rw [protocol?, definition?_new, if_pos rfl]
    rfl
  refine Leads.bind (Leads.register (fun s hs => hs ▸ hsound) (fun _ h => h) fun s hs => ?_)
    fun _ =>
    Leads.pure fun _ hs => hs
  rw [hs]
  exact hsound.registerProtocol hprotocol hfree

theorem announceName_leads (h₀ : s₀.Sound) (t : Tree) (frame : FrameId) (identifier : Value)
    (hkey : name.key? = some key) (hopen : s₀.Open key) (hclass : s₀.classes.get? key = none)
    (hplain : key.IsPlain) :
    Leads (· = s₀) (Statement.announceName t frame identifier name) (fun _ => Sound) Sound := by
  have hsound (s : Symbols) (hs : s = s₀) : s.Sound := hs ▸ h₀
  have hend {o : Option String} : Leads Sound (pure o) (fun _ => Sound) Sound :=
    Leads.pure fun _ hs => hs
  unfold Statement.announceName
  split
  · let c : ClassDef := { name, node := identifier }
    have hpending : (s₀.new (.classDef c)).2.Pending s₀.store.size := by
      refine h₀.newClass ⟨nofun, rfl⟩ fun k hk => ?_
      exact Option.mem_unique hkey hk ▸ hopen
    refine Leads.get fun s hs => ?_
    rw [hs]
    have hset : Leads (· = s₀)
        (modify fun s => { s with symbols := (s₀.new (.classDef c)).2 } : Gen Unit)
        (fun _ s => s = (s₀.new (.classDef c)).2) Sound := ⟨fun _ _ => rfl⟩
    refine Leads.bind hset fun _ => ?_
    refine Leads.bind (Leads.register (fun s hs => hs ▸ hpending.toSound) (fun _ h => h)
      fun s hs => ?_) fun _ => hend
    rw [hs]
    exact hpending.registerClass
  · refine Leads.step hsound Keeps.get fun s => Leads.ofOption_bind hsound fun k _ => ?_
    refine Leads.step hsound (keeps_checks.declare ..) fun _ => ?_
    exact hend.mono hsound (fun _ _ h => h) fun _ h => h
  · refine Leads.bind (Leads.register hsound (fun _ h => h) fun s hs => ?_) fun _ => hend
    rw [hs]
    refine h₀.registerTypedef fun k hk => ?_
    obtain rfl := Option.mem_unique hkey hk
    exact ⟨hclass, hopen.1, hplain⟩

end ObjectiveJ
