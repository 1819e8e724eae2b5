import ObjectiveJ.Proofs.Compile
import ObjectiveJ.Proofs.Tables.Declare

/-!
# The symbol tables of a session

Every unit keeps the symbol tables sound, whether it has a result or not. So the tables of a session
that starts with none are well formed after any number of units, as long as no name has a plus sign
(`Compiler.session_wellFormed`).
-/

namespace ObjectiveJ

open Gen Symbols

variable {id : ClassId} {t : Tree} {site : Site} {walk : Walker}

/-! ### Members -/

theorem makeMethod_leads (selector : Value) (types : List Value) (node : Value)
    {g : Method → Symbols → Symbols} (hg : ∀ m s, m.Fits m.key → s.Sound → (g m s).Sound) :
    Keeps Sound (do
      let method ← Declaration.makeMethod selector types node
      modifySymbols (g method)) := by
  unfold Declaration.makeMethod
  rw [bind_assoc]
  refine Leads.ofOption_bind (fun _ h => h) fun made hmade => ?_
  cases made with
  | error e => exact keeps_checks.throw nofun
  | ok m => exact Leads.modifySymbols fun s hs => hg m s (Method.fits_of_make? hmade) hs

theorem sound_methods : Methods (@Keeps Sound) where
  toAsks := keeps_checks.judge.toAsks
  ofClass _ kind _ _ _ := makeMethod_leads _ _ _ fun _ _ hm hs => hs.addMethod hm kind
  ofProtocol _ kind isRequired _ _ _ :=
    makeMethod_leads _ _ _ fun _ _ hm hs => hs.addProtocolMethod hm kind isRequired

theorem sound_members : soundLaw.Members where
  methods _ := sound_methods
  setMethods _ _ := Keeps.modify fun _ => rfl

/-! ### Declarations -/

/-- A class is declared with a property `R` of the tables until it is registered, if it may be
declared at all. -/
theorem classDeclaration_keeps {P : Symbols → Prop} {Q : Tree → Prop} {R : ClassId → Symbols → Prop}
    (hm : (tableLaw P Q).Members) (hw : (tableLaw P Q).Walks walk)
    (ht : (tableLaw P Q).Owns t) (hR : ∀ id s, R id s → P s)
    (hnew : ∀ s, P s → ∀ identifier name, identifier.part? "name" = some name → ∃ C,
      AnswersIf (· = s) true C (Check.isUnique site.frame t identifier) ∧
        (C → Leads (· = s) (Declaration.newClass t name) R P))
    (hprotocols : ∀ id vs, Leads (R id) (Declaration.addProtocols id vs) (fun _ => R id) P)
    (hivars : ∀ id vs, Leads (R id) (Declaration.writeIvars id vs site.buffer) (fun _ => R id) P)
    (hregister : ∀ id s, R id s → (s.registerClass id).Holds P) :
    Keeps P (Declaration.classDeclaration walk t site) := by
  refine Leads.ofOption_bind (fun _ h => h) fun identifier _ => ?_
  refine Leads.ofOption_bind (fun _ h => h) fun name hname => Leads.fixed fun s₀ h₀ => ?_
  have hfixed (s : Symbols) (hs : s = s₀) : P s := hs ▸ h₀
  obtain ⟨C, hunique, hdeclare⟩ := hnew s₀ h₀ identifier name hname
  refine Leads.bind (hunique.mono (fun _ h => h) (fun _ _ h => h) hfixed) fun unique => ?_
  cases unique with
  | false => exact Leads.pure fun s hs => hfixed s hs.1
  | true =>
    refine Leads.fixed fun s hs => ?_
    obtain ⟨rfl, hC⟩ := hs
    refine Leads.step hfixed Keeps.openMethods fun _ => Leads.bind (hdeclare (hC rfl)) fun id => ?_
    refine Leads.ofOption_bind (hR id) fun protocols _ => ?_
    refine Leads.step (hR id) (keeps_checks.itemsIfTrue _) fun conformed => ?_
    refine Leads.bind (hprotocols id conformed) fun _ => ?_
    refine Leads.step (hR id) (keeps_checks.judge.protocolNames _) fun names => ?_
    refine Leads.step (hR id) (Keeps.of_law (Law.startClass ..)) fun comment => ?_
    refine Leads.step (hR id) (Keeps.of_law (Law.writeProtocols ..)) fun _ => ?_
    refine Leads.step (hR id) Keeps.get fun s => ?_
    refine Leads.step (hR id) (Keeps.modifyGet fun _ => rfl) fun frame => ?_
    refine Leads.ofOption_bind (hR id) fun ivars _ =>
      Leads.ofOption_bind (hR id) fun category _ => ?_
    have hbody (hasAccessors : Bool) : Leads (R id) (do
        register (·.registerClass id)
        Declaration.classMembers walk t id ivars protocols comment frame site hasAccessors)
        (fun _ => P) P :=
      Leads.bind (Leads.register (hR id) (fun _ h => h) (hregister id)) fun _ =>
        (hm.classMembers hw ht id ivars protocols comment frame hasAccessors).allows
          fun h => h
    dsimp only
    split
    · refine Leads.step (hR id) (Keeps.emit _) fun _ => ?_
      exact Leads.bind (hivars id ivars) hbody
    · exact hbody false

theorem classDeclaration_sound (hw : soundLaw.Walks walk) (ht : soundLaw.Owns t) :
    Keeps Sound (Declaration.classDeclaration walk t site) := by
  refine classDeclaration_keeps sound_members hw ht (fun _ _ hs => hs.toSound)
    (fun s hs _ name hname => ?_)
    (fun _ => addProtocols_leads) (fun _ ivars => writeIvars_leads ivars site.buffer) fun _ _ hs =>
      hs.registerClass
  refine ⟨_, AnswersIf.isUnique hs site.frame t hname,
    fun hopen => newClass_leads hs ht name fun k hk => ?_⟩
  obtain ⟨key, hkey, hopen, _⟩ := hopen
  exact Option.mem_unique hkey hk ▸ hopen

/-- A protocol incorporates only protocols that are declared. -/
theorem startProtocol_leads (h₀ : s₀.Sound) (t : Tree) (shown : String) (buffer : Nat) :
    Leads (· = s₀) (Declaration.startProtocol t shown buffer)
      (fun start s => s = s₀ ∧ ∀ e ∈ start.1, s₀.Declares e.2) Sound := by
  have hsound (s : Symbols) (hs : s = s₀) : s.Sound := hs ▸ h₀
  refine Leads.step hsound (Keeps.modifyGet fun _ => rfl) fun scratch => ?_
  refine Leads.ofOption_bind hsound fun protocols _ => ?_
  refine Leads.step hsound (keeps_checks.itemsIfTrue _) fun vs => ?_
  refine Leads.bind ((incorporate_leads h₀ scratch true vs).mono (fun _ h => h) (fun _ _ h => h)
    hsound) fun found => Leads.fixed fun s' hs' => ?_
  obtain ⟨rfl, hdeclares⟩ := hs'
  refine Leads.step hsound (keeps_checks.mapM fun _ => keeps_checks.textOf _) fun names => ?_
  refine Leads.step hsound (Keeps.emit _) fun _ => Leads.step hsound (Keeps.emit _) fun _ => ?_
  exact Leads.pure fun s hs => ⟨hs, hdeclares⟩

theorem protocolDeclaration_keeps (hw : soundLaw.Walks walk)
    (ht : soundLaw.Owns t) (htype : t.type = .protocolDeclaration) :
    Keeps Sound (Declaration.protocolDeclaration walk t site) := by
  refine Leads.ofOption_bind (fun _ h => h) fun identifier hidentifier => ?_
  refine Leads.ofOption_bind (fun _ h => h) fun name hname => Leads.fixed fun s₀ h₀ => ?_
  have hidentifierNames : identifier.HasPlainNames := ht hidentifier
  have hsound (s : Symbols) (hs : s = s₀) : s.Sound := hs ▸ h₀
  refine Leads.bind ((AnswersIf.isUnique h₀ site.frame t hname).mono (fun _ h => h) (fun _ _ h => h)
    hsound) fun unique => ?_
  cases unique with
  | false => exact Leads.pure fun s hs => hsound s hs.1
  | true =>
    refine Leads.fixed fun s hs => ?_
    obtain ⟨rfl, hopen⟩ := hs
    obtain ⟨key, hkey, hopen, hclass⟩ := hopen rfl
    have hfree (k : Key) (hk : name.key? = some k) :
        s.classes.get? k = none ∧ s.typedefs.get? k = none ∧ k.IsPlain := by
      obtain rfl := Option.mem_unique hkey hk
      exact ⟨hclass (by rw [htype]; nofun), hopen.2, hidentifierNames.isPlain hname hkey⟩
    refine Leads.step hsound Keeps.openMethods fun _ => ?_
    refine Leads.bind (startProtocol_leads h₀ ..) fun start => Leads.fixed fun s' hs' => ?_
    obtain ⟨rfl, hdeclares⟩ := hs'
    refine Leads.step hsound (Keeps.emit _) fun _ => ?_
    refine Leads.bind (newProtocol_leads h₀ t (fun other hother => ?_) hfree) fun id => ?_
    · obtain ⟨e, he, rfl⟩ := List.mem_map.1 hother
      exact hdeclares e he
    -- what follows is allowed by the law
    refine (Keeps.modifyGet fun _ => rfl).bind fun frame => ?_
    have hmembers {vs : List Value} (hvs : ∀ v ∈ vs, soundLaw.Admits v) :
        Keeps Sound (Gen.inTurn walk vs { site with frame }) := hw.inTurn hvs
    refine Law.fieldItems_bind (L := soundLaw) (f := 0) ht fun required hrequired => ?_
    refine (hmembers hrequired).bind fun _ => (Keeps.modifyFrames _).bind fun _ => ?_
    refine Law.fieldItems_bind (L := soundLaw) (f := 0) ht fun optional hoptional => ?_
    exact (hmembers hoptional).bind fun _ => sound_members.endProtocol (f := 0) ..

theorem announceNames_keeps (ht : Check.announces t.type = true) {frame : FrameId}
    {identifiers : List Value} (hnames : ∀ v ∈ identifiers, v.HasPlainNames) :
    Keeps Sound (Statement.announceNames t frame identifiers) := by
  have htype : t.type ≠ .classDeclaration := fun h => by
    rw [h] at ht
    cases ht
  induction identifiers with
  | nil => exact keeps_checks.pure _
  | cons identifier rest ih =>
    have hrest (name : Value) (type : Option String) : Keeps Sound (do
        let more ← Statement.announceNames t frame rest
        return (name.display :: more.1, type.toList ++ more.2)) :=
      (ih fun v hv => hnames v (.tail _ hv)).bind fun _ => keeps_checks.pure _
    refine Leads.ofOption_bind (fun _ h => h) fun name hname => Leads.fixed fun s₀ h₀ => ?_
    have hsound (s : Symbols) (hs : s = s₀) : s.Sound := hs ▸ h₀
    refine Leads.bind ((AnswersIf.isUnique h₀ frame t hname).mono (fun _ h => h) (fun _ _ h => h)
      hsound) fun unique => ?_
    cases unique with
    | false =>
      exact (hrest name none).mono (fun s hs => hsound s hs.1) (fun _ _ h => h) fun _ h => h
    | true =>
      refine Leads.fixed fun s hs => ?_
      obtain ⟨rfl, hopen⟩ := hs
      obtain ⟨key, hkey, hopen, hclass⟩ := hopen rfl
      have hplain := (hnames identifier (.head _)).isPlain hname hkey
      exact Leads.bind
        (announceName_leads h₀ t frame identifier hkey hopen (hclass htype) hplain) (hrest name)

theorem announce_keeps (keyword : String) (hadmits : soundLaw.Owns t)
    (ht : Check.announces t.type = true) : Keeps Sound (Statement.announce t keyword site) := by
  refine Law.fieldItems_bind (L := soundLaw) (f := 0) hadmits fun vs hvs => ?_
  refine (announceNames_keeps ht hvs).bind fun announced => (Keeps.emit _).bind fun _ => ?_
  split
  · exact Keeps.emit _
  · exact keeps_checks.pure _

theorem sound_declarations : soundLaw.Declarations where
  classDeclaration hw ht _ := classDeclaration_sound hw ht
  protocolDeclaration := protocolDeclaration_keeps
  announce := announce_keeps
  startMethod _ kind := sound_members.startMethod kind

/-! ### Programs -/

theorem Tree.HasPlainName.numbered {t : Tree} (h : t.HasPlainName) (n : Nat) :
    (t.numbered.run n).1.HasPlainName := by
  intro s hs
  obtain ⟨v, m, hv, heq⟩ := t.get?_of_numbered hs
  rw [Value.eq_data_of_numbered heq.symm] at hv
  exact h s hv

namespace Compiler

variable {c : Compiler} {symbols : Symbols} {u : CompileUnit}

theorem compile_keeps {P : Symbols → Prop} {Q : Tree → Prop} (hr : (tableLaw P Q).Runs)
    (hQ : ∀ t n, Q t → Q (t.numbered.run n).1) (hP : ∀ s n, P s → P { s with nodes := n })
    (hu : ∀ t ∈ u.program.nodes, Q t) (hs : P symbols) : P (c.compile symbols u).2 := by
  have hwalk (source : Option String) (stop : Option Nat) :
      P (c.outcome symbols u source stop).2.symbols := by
    have hprogram := Value.nodes_numbered hQ u.program symbols.nodes hu
    have hkeeps : Keeps P (generate (u.program.numbered.run symbols.nodes).1) :=
      hr.scopes.generate hprogram 0
    exact hkeeps.symbols (hP _ _ hs)
  cases hindenter : c.indenter? with
  | none =>
    rw [compile, hindenter]
    exact hs
  | some indenter =>
    cases hsource : u.source? with
    | none =>
      rw [compile, hindenter, hsource]
      exact hs
    | some source =>
      rw [compile_eq hindenter hsource]
      split
      · exact hwalk source none
      · exact hwalk source _

/-- The symbol tables after some units, each with its own compiler. -/
def session (symbols : Symbols) (runs : List (Compiler × CompileUnit)) : Symbols :=
  runs.foldl (fun symbols run => (run.1.compile symbols run.2).2) symbols

theorem session_keeps {P : Symbols → Prop} {Q : Tree → Prop} (hr : (tableLaw P Q).Runs)
    (hQ : ∀ t n, Q t → Q (t.numbered.run n).1) (hP : ∀ s n, P s → P { s with nodes := n })
    {runs : List (Compiler × CompileUnit)} (h : ∀ run ∈ runs, ∀ t ∈ run.2.program.nodes, Q t)
    (hs : P symbols) : P (session symbols runs) := by
  induction runs generalizing symbols with
  | nil => exact hs
  | cons run rest ih =>
    exact ih (fun r hr => h r (.tail _ hr))
      (compile_keeps hr hQ hP (h run (.head _)) hs)

/-- The symbol tables of a session stay well formed. -/
theorem session_wellFormed (runs : List (Compiler × CompileUnit))
    (h : ∀ run ∈ runs, run.2.program.HasPlainNames) : (session {} runs).WellFormed := by
  have hruns : soundLaw.Runs := tableLaw_runs sound_declarations sound_methods
  have hsession := session_keeps hruns (fun _ n ht => ht.numbered n)
    (fun _ _ hs => hs.same rfl rfl rfl rfl) h Sound.empty
  exact hsession.wellFormed

/-- The unit of a protocol, a class that conforms to it, a subclass of that, and a class whose
superclass is not known. -/
def family : CompileUnit where
  program := .program
    [.node .protocolDeclaration [("name", .name "P"), ("protocols", .null), ("required", .list []),
      ("optional", .list [])],
      .classOf "A" .null .null (.list [.name "P"]) [] [],
      .classOf "B" (.name "A") .null .null [] [], .classOf "C" (.name "D") .null .null [] []]

def silent : Compiler where
  options := { warnings := {} }
  format := {}
  predefined := {}

theorem session_family_wellFormed :
    family.program.HasPlainNames ∧ (session {} [(silent, family), (silent, family)]).Super 2 1 ∧
      (session {} [(silent, family), (silent, family)]).WellFormed := by
  have hnames : family.program.HasPlainNames := by decide +kernel
  refine ⟨hnames, by decide +kernel, session_wellFormed _ fun run hrun => ?_⟩
  rcases List.mem_cons.1 hrun with rfl | hrun
  · exact hnames
  · rw [List.mem_singleton.1 hrun]
    exact hnames

end Compiler

end ObjectiveJ
