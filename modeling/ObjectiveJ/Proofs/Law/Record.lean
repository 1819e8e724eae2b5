import ObjectiveJ.Generate.Declaration
import ObjectiveJ.Generate.Statement
import ObjectiveJ.Proofs.Law.Check

/-!
# Laws for what is recorded

Classes, protocols, types and methods are recorded in the symbol tables. A property of checks that
also allows changes of these tables (`Records`) is a property of every step that records something.
For methods it is enough that the property allows adding a method whose types fit its selector
(`Methods`).
-/

namespace ObjectiveJ

open Gen

/-- A property of checks that allows changes of the symbol tables. -/
structure Records (A : StepProp) : Prop extends Judges @A where
  symbols : ∀ {α : Type} (g : Symbols → α × Symbols),
    A (modifyGet fun s => ((g s.symbols).1, { s with symbols := (g s.symbols).2 }) : Gen α)

/-- A property of checks that allows adding methods. -/
structure Methods (A : StepProp) : Prop extends Asks @A where
  ofClass : ∀ id kind selector types node, A (do
    let method ← Declaration.makeMethod selector types node
    modifySymbols (·.addMethod id method kind))
  ofProtocol : ∀ id kind isRequired selector types node, A (do
    let method ← Declaration.makeMethod selector types node
    modifySymbols (·.modifyProtocol id (·.addMethod method kind isRequired)))

namespace Symbols

variable {s : Symbols} {e : Fatal}

theorem not_isLimit_registerClass {id : ClassId} (h : s.registerClass id = .duplicate e) :
    e.cause.isLimit = false := by
  have henter (key : Key) (c : ClassDef) : s.enterClass key id c ≠ .duplicate e := by
    unfold enterClass
    split <;> nofun
  unfold registerClass at h
  split at h
  · cases h
  split at h
  · cases h
  split at h
  · exact absurd h (henter _ _)
  split at h
  · cases h
  split at h
  · exact absurd h (henter _ _)
  · cases h
    rfl

theorem not_isLimit_registerProtocol {id : ProtocolId} (h : s.registerProtocol id = .duplicate e) :
    e.cause.isLimit = false := by
  unfold registerProtocol at h
  split at h
  · cases h
  split at h
  · cases h
  split at h
  · cases h
    rfl
  · dsimp only at h
    split at h <;> cases h

theorem not_isLimit_registerTypedef {t : Typedef} (h : s.registerTypedef t = .duplicate e) :
    e.cause.isLimit = false := by
  unfold registerTypedef at h
  split at h
  · cases h
  · dsimp only at h
    split at h <;> cases h

end Symbols

namespace Asks

variable {A : StepProp} (h : Asks @A)

include h

theorem superclass? (t : Tree) (name : Value) : A (Declaration.superclass? t name) := by
  refine h.bind (h.field ..) fun superclass => ?_
  split
  · exact h.pure _
  refine h.bind (h.part ..) fun up => h.bind (h.key _) fun key => ?_
  refine h.look (fun _ _ hs => by rw [hs.symbols]) fun s => ?_
  dsimp only
  split
  · split
    · exact h.fatalAt _ _ rfl
    · exact h.pure _
  · exact h.fatalAt _ _ rfl

theorem makeMethod (selector : Value) (types : List Value) (node : Value) :
    A (Declaration.makeMethod selector types node) := by
  refine h.bind (h.ofOption _) fun made => ?_
  split
  · exact h.throw _ rfl
  · exact h.pure _

theorem typeName (type : Value) (ifAbsent : String) : A (Declaration.typeName type ifAbsent) := by
  unfold Declaration.typeName
  split
  · exact h.pure _
  · refine h.bind (h.part ..) fun name => h.bind (h.part ..) fun protocols => ?_
    exact h.seq (h.cautioned fun hA => hA.typeProtocols _) <| h.pure _

theorem methodTypes (t : Tree) : A (Declaration.methodTypes t) := by
  refine h.bind (h.field ..) fun returnType => h.bind (h.field ..) fun action => ?_
  refine h.bind (h.typeName ..) fun result => h.bind (h.fieldItems ..) fun params => ?_
  refine h.bind (h.mapM fun param => ?_) fun _ => h.pure _
  exact h.bind (h.part ..) fun _ => h.typeName ..

theorem shownName? (t : Tree) (name : String) : A (Declaration.shownName? t name) := by
  refine h.bind (h.field ..) fun v => ?_
  split
  · exact h.pure _
  · exact h.bind (h.part ..) fun _ => h.pure _

theorem protocolNames (protocols : List Value) : A (Declaration.protocolNames protocols) :=
  h.mapM fun _ => h.bind (h.part ..) fun _ => h.textOf _

theorem unknownProtocol (name : Value) : A (Check.unknownProtocol name) :=
  h.look (fun _ _ hs => by rw [hs.symbols]) fun _ => h.bind (h.textOf name) fun _ => h.pure _

theorem addProtocols {id : ClassId}
    (hadd : ∀ key name protocol, A (modifySymbols (·.modifyClass id fun c =>
      { c with protocols := c.protocols.set key name protocol }))) (protocols : List Value) :
    A (Declaration.addProtocols id protocols) := by
  induction protocols with
  | nil => exact h.pure _
  | cons protocol rest ih =>
    refine h.bind (h.part ..) fun name => h.bind (h.key _) fun key => ?_
    refine h.look (fun _ _ hs => by rw [hs.symbols]) fun s => ?_
    dsimp only
    split
    · exact h.seq (hadd ..) ih
    · exact h.bind (h.unknownProtocol _) fun _ => h.seq (h.error ..) ih

end Asks

namespace Records

variable {A : StepProp} (h : Records @A)

include h

theorem modifySymbols (g : Symbols → Symbols) : A (Gen.modifySymbols g) :=
  h.symbols fun symbols => ((), g symbols)

theorem setSymbols (symbols : Symbols) : A (modify fun s => { s with symbols } : Gen Unit) :=
  h.modifySymbols fun _ => symbols

theorem register {f : Symbols → Registration}
    (hf : ∀ symbols e, f symbols = .duplicate e → e.cause.isLimit = false) :
    A (Gen.register f) := by
  refine h.look (fun _ _ hs => by rw [hs.symbols]) fun s => ?_
  split
  · exact h.setSymbols _
  · rename_i hduplicate
    exact h.throw _ (hf _ _ hduplicate)
  · exact h.seq (h.setSymbols _) h.incomplete

/-! ### Classes and protocols -/

theorem newSymbol (d : Definition) : A (modifyGet fun s =>
    let (id, symbols) := s.symbols.new d
    (id, { s with symbols }) : Gen Nat) :=
  h.symbols fun symbols => symbols.new d

theorem newClass (t : Tree) (name : Value) : A (Declaration.newClass t name) := by
  refine h.bind (h.field ..) fun category => ?_
  dsimp only
  split
  · refine h.bind (h.superclass? t name) fun _ => ?_
    exact h.bind (h.pure _) fun _ => h.newSymbol _
  · refine h.look (fun _ _ hs => by rw [hs.symbols]) fun s => h.bind (h.key _) fun key => ?_
    refine h.bind (h.ofOption _) fun base => h.bind (h.part ..) fun shown => ?_
    exact h.bind (h.pure _) fun _ => h.newSymbol _

theorem newProtocol (t : Tree) (name : Value) (incorporated : List ProtocolId) :
    A (Declaration.newProtocol t name incorporated) :=
  h.bind (h.newSymbol _) fun _ =>
    h.bind (h.register fun _ _ => Symbols.not_isLimit_registerProtocol) fun _ => h.pure _

theorem announceName (t : Tree) (frame : FrameId) (identifier name : Value) :
    A (Statement.announceName t frame identifier name) := by
  unfold Statement.announceName
  split
  · refine h.look (fun _ _ hs => by rw [hs.symbols]) fun s => h.seq (h.setSymbols _) ?_
    exact h.seq (h.register fun _ _ => Symbols.not_isLimit_registerClass) <| h.pure _
  · refine h.look (fun _ _ hs => by rw [hs.root]) fun s => h.bind (h.key _) fun key => ?_
    exact h.seq (h.declare ..) <| h.pure _
  · exact h.seq (h.register fun _ _ => Symbols.not_isLimit_registerTypedef) <| h.pure _

theorem methods : Methods @A where
  toAsks := h.toAsks
  ofClass _ _ _ _ _ := h.bind (h.makeMethod ..) fun _ => h.modifySymbols _
  ofProtocol _ _ _ _ _ _ := h.bind (h.makeMethod ..) fun _ => h.modifySymbols _

end Records

theorem Methods.recordMethod {A : StepProp} (h : Methods @A) (t : Tree)
    (kind : MethodKind) (selector : Value) (types : List Value) (owner : MethodOwner) :
    A (Declaration.recordMethod t kind selector types owner) := by
  refine h.look (fun _ _ hs => by simp only [hs.symbols]) fun s => h.bind (h.key _) fun key => ?_
  dsimp only
  split
  · split
    · exact h.errorNote ..
    · refine h.bind (h.ofOption _) fun earlier => ?_
      exact h.seq (h.cautioned fun hA => hA.overriding ..) <| h.ofClass ..
  · split
    · refine h.cautioned fun hA => hA.look (fun _ _ _ hd => by rw [hd]) fun s => ?_
      split
      · exact hA.explained _ _ _ fun hB => hB.pure _
      · exact hA.pure _
    · refine h.bind (h.ofOption _) fun earlier => ?_
      exact h.seq (h.cautioned fun hA => hA.overriding ..) <| h.ofProtocol ..
  · exact h.pure _

end ObjectiveJ
