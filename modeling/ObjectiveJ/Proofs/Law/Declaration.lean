import ObjectiveJ.Proofs.Law.Record
import ObjectiveJ.Proofs.Law.Statement
import ObjectiveJ.Proofs.Tables.Sound

/-!
# Laws for classes and protocols

A law allows the code of classes and protocols if it allows what these do to the symbol tables
(`Law.Declares`). The members of a class are compiled in a frame of its own, between steps in the
frame around it.
-/

namespace ObjectiveJ

open Gen

/-- Steps in a frame and in another one inside of it, one after another. -/
inductive Law.Mixed (L : Law) (f inner : FrameId) : ∀ {α : Type}, Gen α → Prop
  | outside {α : Type} {m : Gen α} : L.Allows f m → L.Mixed f inner m
  | inside {α : Type} {m : Gen α} : L.Allows inner m → L.Mixed f inner m
  | bind {α β : Type} {m : Gen α} {k : α → Gen β} :
    L.Mixed f inner m → (∀ a, L.Mixed f inner (k a)) → L.Mixed f inner (m >>= k)
  | look {β : Type} {k : GenState → Gen β} : (∀ s s', s.Concurs s' → k s' = k s) →
    (∀ s, L.Mixed f inner (k s)) → L.Mixed f inner (MonadState.get >>= k)
  | shifted (sh : Shift) {α : Type} {m : Gen α} : L.Mixed f inner m →
    L.Mixed f inner (do
      sh.begin
      let a ← m
      sh.finish
      return a)

/-- A law for the code of declarations. -/
structure Law.Declarations (L : Law) : Prop where
  classDeclaration : ∀ {walk : Walker} {t : Tree} {site : Site}, L.Walks walk →
    L.Owns t → t.type = .classDeclaration →
    L.Allows site.frame (Declaration.classDeclaration walk t site)
  protocolDeclaration : ∀ {walk : Walker} {t : Tree} {site : Site}, L.Walks walk →
    L.Owns t → t.type = .protocolDeclaration →
    L.Allows site.frame (Declaration.protocolDeclaration walk t site)
  announce : ∀ {t : Tree} {site : Site} keyword, L.Owns t →
    Check.announces t.type = true → L.Allows site.frame (Statement.announce t keyword site)
  startMethod : ∀ f kind, L.Allows f (Declaration.startMethod kind)

/-- A law for the methods of classes and protocols. -/
structure Law.Members (L : Law) : Prop where
  methods : ∀ f, Methods (@L.Allows f)
  setMethods : ∀ f methods, L.Allows f (modify fun s => { s with methods } : Gen Unit)

/-- A law for methods that are started in the buffers that there are. -/
structure Law.Starts (L : Law) : Prop where
  methods : ∀ f, Methods (@L.Allows f)
  startMethod : ∀ f kind, L.Allows f (Declaration.startMethod kind)

/-- A law for changes of classes other than of their names. -/
structure Law.Revises (L : Law) : Prop where
  modifyClass : ∀ f id {g : ClassDef → ClassDef}, (∀ c, Symbols.bare (g c) = Symbols.bare c) →
    L.Allows f (modifySymbols (·.modifyClass id g))

/-- A law for what is recorded in the symbol tables, but for classes. -/
structure Law.Registers (L : Law) : Prop where
  methods : ∀ f, Methods (@L.Allows f)
  newProtocol : ∀ f t name incorporated, L.Allows f (Declaration.newProtocol t name incorporated)
  announceName : ∀ f t identifier name, L.Allows f (Statement.announceName t f identifier name)

/-- A law for the bodies of classes and protocols. -/
structure Law.Bodies (L : Law) : Prop where
  setMethods : ∀ f methods, L.Allows f (modify fun s => { s with methods } : Gen Unit)
  newBody : ∀ {f} {body : Frame} {k : FrameId → Gen Unit},
    body.kind = .classBody ∨ body.kind = .protocolBody → body.parent = some f → body.level = 0 →
    body.maxLevel = 0 → body.ivarRefs = {} → body.vars = {} → body.parked = [] →
    (∀ id, L.Mixed f id (k id)) → L.Allows f (newFrame body >>= k)
  optional : ∀ f id,
    L.Allows f (modifyFrames (·.modify id fun body => { body with optionalMethods := true }))

/-- A law for what classes and protocols do to the symbol tables. -/
structure Law.Declares (L : Law) : Prop extends L.Bodies where
  records : ∀ f, Records (@L.Allows f)

theorem Law.Registers.of_records {L : Law} (h : ∀ f, Records (@L.Allows f)) : L.Registers where
  methods f := (h f).methods
  newProtocol f := (h f).newProtocol
  announceName f t := (h f).announceName t f

theorem Law.Revises.of_records {L : Law} (h : ∀ f, Records (@L.Allows f)) : L.Revises where
  modifyClass f _ _ _ := (h f).modifySymbols _

namespace Law

variable {name s : String} {walk : Walker}

variable {L : Law} {f : FrameId} {t : Tree} {site : Site} {α β : Type} (buffer : Nat)
  (location : Option Location)

/-! ### Buffers for methods -/

theorem methodBuffers : L.Allows f Declaration.methodBuffers :=
  L.get (fun _ _ hs => by rw [hs.methods]) fun _ => ofOption _

theorem templateAt (h : s ≠ tempsHeader) :
    L.Allows f (Gen.templateAt buffer s location) :=
  L.emit f (by simpa [Instr.isPlain, Instr.isLevel] using h)

theorem continuedAt (h : s ≠ tempsHeader) :
    L.Allows f (Gen.continuedAt buffer s location) :=
  L.emit f (by simpa [Instr.isPlain, Instr.isLevel] using h)

theorem ne_tempsHeader {n : Nat} (h : s.toList.take n ≠ tempsHeader.toList.take n) :
    s ≠ tempsHeader := fun heq => h (by rw [heq])

theorem startClass (name : String) (protocols : List String) (buffer : Nat) :
    L.Allows f (Declaration.startClass t name protocols buffer) := by
  refine L.bind ((L.judges f).shownName? ..) fun category => ?_
  cases category with
  | some category =>
    refine L.seq (continuedAt _ _ (ne_tempsHeader (n := 1) ?_)) <| L.pure ..
    simp [toString, String.toList_append, tempsHeader]
  | none =>
    refine L.bind ((L.judges f).shownName? ..) fun up => ?_
    refine L.seq (continuedAt _ _ (ne_tempsHeader (n := 1) ?_)) <| L.pure ..
    simp [toString, String.toList_append, tempsHeader]

theorem addMethods (target : String) (m : MethodBuffer) (buffer : Nat) {title : String}
    (htitle : title = "Instance" ∨ title = "Class") :
    L.Allows f (Declaration.addMethods title target m buffer) := by
  unfold Declaration.addMethods
  split
  · exact L.pure ..
  refine L.seq (template _ (ne_tempsHeader (n := 6) ?_)) ?_
  · rcases htitle with rfl | rfl <;> simp [toString, String.toList_append, tempsHeader]
  · exact L.seq (splice ..) <| template _ (by simp [tempsHeader])

theorem protocolLookup_take {declare variableName rest : String}
    (h : declare = "var " ∨ declare = "" ∨ declare = "\nvar ")
    (hname : variableName.toList.head? = some '$') :
    (Declaration.protocolLookup declare variableName name ++ rest).toList.take 2 ≠
      tempsHeader.toList.take 2 := by
  obtain ⟨c, cs, hcs⟩ : ∃ c cs, variableName.toList = c :: cs := by
    cases hlist : variableName.toList with
    | nil => simp [hlist] at hname
    | cons c cs => exact ⟨c, cs, rfl⟩
  obtain rfl : c = '$' := by simpa [hcs] using hname
  rcases h with rfl | rfl | rfl
  all_goals
    simp [Declaration.protocolLookup, toString, String.toList_append, tempsHeader, hcs]

theorem writeProtocols (isFirst : Bool) (names : List String) :
    L.Allows f (Declaration.writeProtocols buffer isFirst names) := by
  induction names generalizing isFirst with
  | nil => exact L.pure ..
  | cons name rest ih =>
    refine L.seq (template _ (ne_tempsHeader (protocolLookup_take ?_ rfl))) <| ih false
    cases isFirst <;> simp

theorem describe (m : MethodBuffer) (isInstance : Bool) (buffer : Nat) :
    L.Allows f (Declaration.describe m isInstance buffer) := by
  refine L.seq (template _ (by simp [tempsHeader])) <| L.seq (splice ..) ?_
  refine template _ (ne_tempsHeader (n := 2) ?_)
  simp [toString, String.toList_append, tempsHeader]

theorem addDescriptions (m : MethodBuffer) (isInstance startsLine : Bool) (buffer : Nat) :
    L.Allows f (Declaration.addDescriptions m isInstance startsLine buffer) := by
  unfold Declaration.addDescriptions
  split
  · exact L.pure ..
  dsimp only
  split
  · exact L.seq (text ..) <| describe ..
  · exact describe ..

namespace Mixed

variable {inner : FrameId}

theorem ofOption_bind {o : Option α} {k : α → Gen β}
    (hk : ∀ a, o = some a → L.Mixed f inner (k a)) : L.Mixed f inner (Gen.ofOption o >>= k) := by
  cases o with
  | none => exact .outside (L.throw f _ rfl)
  | some a => exact hk a rfl

theorem field_bind {k : Value → Gen β} (ht : L.Owns t)
    (hk : ∀ w, L.Admits w → L.Mixed f inner (k w)) : L.Mixed f inner (field t name >>= k) :=
  ofOption_bind fun w hw => hk w (ht hw)

theorem items_bind {v : Value} {k : List Value → Gen β} (hv : L.Admits v)
    (hk : ∀ ws, (∀ w ∈ ws, L.Admits w) → L.Mixed f inner (k ws)) :
    L.Mixed f inner (Gen.items v >>= k) :=
  ofOption_bind fun ws hws => hk ws fun _ hw => L.admits_item hv hws hw

theorem fieldItems_bind {k : List Value → Gen β} (ht : L.Owns t)
    (hk : ∀ ws, (∀ w ∈ ws, L.Admits w) → L.Mixed f inner (k ws)) :
    L.Mixed f inner (Gen.fieldItems t name >>= k) := by
  unfold Gen.fieldItems
  rw [bind_assoc]
  exact field_bind ht fun v hv => items_bind hv hk

end Mixed

namespace Members

variable (hd : L.Members)

include hd

theorem openMethods : L.Allows f Declaration.openMethods :=
  L.bind (L.newBuffer f) fun _ => L.bind (L.newBuffer f) fun _ => hd.setMethods ..

theorem closeMethods : L.Allows f Declaration.closeMethods := hd.setMethods ..

theorem startMethod (kind : MethodKind) : L.Allows f (Declaration.startMethod kind) := by
  have hend (methods : Option MethodBuffers) (buffer : Nat) : L.Allows f (do
      modify fun s => { s with methods }
      return buffer) :=
    L.seq (hd.setMethods ..) <| L.pure ..
  refine L.bind methodBuffers fun both => ?_
  dsimp only
  split
  · exact L.seq (text ..) <| hend ..
  · exact hend ..

theorem starts : L.Starts where
  methods := hd.methods
  startMethod _ := hd.startMethod

end Members

/-! ### Accessors -/

namespace Starts

variable {comment : String}

variable (hd : L.Starts) (id : ClassId) (ivar : Ivar) (attributes : String)

include hd

omit hd in
theorem accessorText_plain {settings : Settings} {selector : Value} {function params body : String}
    {types : List Value} (hcomment : comment.toList.head? = some '/') (buffer : Nat) :
    (Instr.template buffer (Declaration.accessorText settings selector function comment params body
      types) false none).isPlain = true := by
  have hne : Declaration.accessorText settings selector function comment params body types ≠
      tempsHeader := by
    refine ne_tempsHeader (n := 2) ?_
    obtain ⟨cs, hcs⟩ : ∃ cs, comment.toList = '/' :: cs := by
      cases hlist : comment.toList with
      | nil => simp [hlist] at hcomment
      | cons c cs => exact ⟨cs, by simpa [hlist] using hcomment⟩
    simp [Declaration.accessorText, toString, String.toList_append, tempsHeader, hcs]
  simpa [Instr.isPlain, Instr.isLevel] using hne

theorem writeAccessor (className : String) (selector : Value) (params : String)
    (body : Bool → String) (types : List Value) (hcomment : comment.toList.head? = some '/') :
    L.Allows f (Declaration.writeAccessor className selector comment params body types) := by
  have hwrite (p : Bool → Prop) (s s' : Settings) (name name' : String) :
      Styled (@L.Allows f) p
        (Declaration.startMethod .ofInstance >>= fun buffer => Gen.template buffer
          (Declaration.accessorText s selector name comment params (body s.inlineMsgSend) types))
        (Declaration.startMethod .ofInstance >>= fun buffer => Gen.template buffer
          (Declaration.accessorText s' selector name' comment params (body s'.inlineMsgSend)
            types)) :=
    .bind (.same (hd.startMethod ..)) fun buffer =>
      .emit (accessorText_plain hcomment buffer) (accessorText_plain hcomment buffer)
  have hallows (s : Settings) (name : String) : L.Allows f (do
      let buffer ← Declaration.startMethod .ofInstance
      Gen.template buffer (Declaration.accessorText s selector name comment params
        (body s.inlineMsgSend) types)) :=
    L.bind (hd.startMethod ..) fun buffer => L.emit f (accessorText_plain hcomment buffer)
  refine L.style (fun s s' _ hs => by simp only [hs]) fun s s' _ => ?_
  dsimp only [Declaration.accessorName]
  cases hname : s.settings.methodNames with
  | true =>
    cases hname' : s'.settings.methodNames with
    | true => exact .bind (.same (L.bind (textOf _) fun _ => L.pure ..)) fun _ => hwrite _ _ _ _ _
    | false =>
      cases htext : selector.text? with
      | none =>
        simp only [Gen.textOf, htext, if_true, Bool.false_eq_true, if_false, pure_bind]
        exact .lacks ⟨hname, hname'⟩ (hallows _ _)
      | some text =>
        simp only [Gen.textOf, htext, if_true, Bool.false_eq_true, if_false, pure_bind]
        exact hwrite _ _ _ _ _
  | false =>
    cases hname' : s'.settings.methodNames with
    | true =>
      cases htext : selector.text? with
      | none =>
        simp only [Gen.textOf, htext, if_true, Bool.false_eq_true, if_false, pure_bind]
        exact .lacked ⟨hname, hname'⟩ (hallows _ _)
      | some text =>
        simp only [Gen.textOf, htext, if_true, Bool.false_eq_true, if_false, pure_bind]
        exact hwrite _ _ _ _ _
    | false =>
      simp only [Bool.false_eq_true, if_false, pure_bind]
      exact hwrite _ _ _ _ _

theorem accessor (selector : Value) (params : String)
    (body : Bool → String) (types : List Value) (hcomment : comment.toList.head? = some '/') :
    L.Allows f (Declaration.accessor id ivar selector comment params body types) := by
  refine L.get (fun _ _ hs => by simp only [hs.symbols]) fun s => ?_
  refine L.bind (ofOption _) fun c => L.bind (key _) fun k => ?_
  split
  · exact L.pure ..
  have hadd := L.seq ((hd.methods f).ofClass id .ofInstance selector types ivar.node) <|
    hd.writeAccessor c.name.display selector params body types hcomment
  rwa [bind_assoc] at hadd

theorem getter :
    L.Allows f (Declaration.getter id ivar attributes) := by
  refine L.bind (ofOption _) fun selector => hd.accessor id ivar selector _ _ _ ?_
  simp [toString, String.toList_append]

theorem setter :
    L.Allows f (Declaration.setter id ivar attributes) := by
  refine L.bind (ofOption _) fun selector => L.bind (part ..) fun copy => ?_
  refine hd.accessor id ivar _ _ _ _ ?_
  simp [toString, String.toList_append]

theorem addAccessor :
    L.Allows f (Declaration.addAccessor id ivar) := by
  refine L.bind (ofOption _) fun attributes => L.seq (hd.getter id ivar attributes) ?_
  refine L.bind (part ..) fun readonly => ?_
  split
  · refine L.bind (part ..) fun given => ?_
    split
    · exact L.error ..
    · exact L.pure ..
  · exact hd.setter id ivar attributes

theorem addAccessors (seen : List Key) (declarations : List Value) :
    L.Allows f (Declaration.addAccessors id seen declarations) := by
  induction declarations generalizing seen with
  | nil => exact L.pure ..
  | cons declaration rest ih =>
    refine L.bind (part ..) fun identifier => L.bind (part ..) fun name => ?_
    refine L.bind (key _) fun k => L.bind (part ..) fun accessors => ?_
    dsimp only
    split
    · refine L.get (fun _ _ hs => by rw [hs.symbols]) fun s => ?_
      split
      · exact L.seq (hd.addAccessor ..) <| ih ..
      · exact ih ..
    · exact ih ..

end Starts

namespace Members

variable (hd : L.Members)

include hd

theorem endClass (id : ClassId) (protocols : Value) (comment : String) (buffer : Nat) :
    L.Allows f (Declaration.endClass id protocols comment buffer) := by
  refine L.bind methodBuffers fun methods => L.seq (addMethods _ _ _ (.inl rfl)) ?_
  refine L.seq (addMethods _ _ _ (.inr rfl)) ?_
  refine L.seq (template _ (ne_tempsHeader (n := 2) ?_)) ?_
  · simp [String.toList_append, tempsHeader]
  dsimp only
  split
  · exact L.seq ((L.judges _).warned fun hA => hA.conformance ..) hd.closeMethods
  · exact hd.closeMethods

theorem endProtocol (comment : String) (buffer : Nat) :
    L.Allows f (Declaration.endProtocol comment buffer) := by
  refine L.bind methodBuffers fun methods => L.seq (addDescriptions ..) ?_
  refine L.seq (addDescriptions ..) ?_
  refine L.seq (template _ (ne_tempsHeader (n := 2) ?_)) hd.closeMethods
  simp [String.toList_append, tempsHeader]

end Members

namespace Revises

variable (hd : L.Revises) (id : ClassId) (buffer : Nat)

include hd

/-! ### Instance variables -/

omit hd in
theorem ivarType (typeName : Value) :
    L.Allows f (Declaration.ivarType buffer typeName) :=
  L.style (fun _ _ _ hs => by rw [hs]) fun _ _ _ => .optionally (L.pure ..) rfl rfl

theorem addIvar (declaration identifier name : Value)
    (isLast : Bool) :
    L.Allows f (Declaration.addIvar id buffer declaration identifier name isLast) := by
  have hwrite (type typeName : Value) :
      L.Allows f (Declaration.writeIvar id buffer declaration identifier name isLast type
        typeName) := by
    refine L.seq ((L.judges f).warned fun hA => hA.ivarType _) ?_
    refine L.seq (templateAt _ _ (ne_tempsHeader (n := 2) ?_)) ?_
    · simp [toString, String.toList_append, tempsHeader]
    refine L.seq (ivarType ..) <| L.seq (text ..) ?_
    refine L.bind (part ..) fun accessors => L.bind (part ..) fun _ => L.bind (key _) fun k => ?_
    exact L.seq (hd.modifyClass f id fun _ => rfl) <| L.pure ..
  refine L.bind (part ..) fun type => ?_
  dsimp only
  split
  · exact hwrite type _
  · exact L.bind (part ..) fun _ => hwrite type _

theorem addIvars (declarations : List Value) :
    L.Allows f (Declaration.addIvars id buffer declarations) := by
  induction declarations with
  | nil => exact L.pure ..
  | cons declaration rest ih =>
    have hrest (recorded : Bool) : L.Allows f (do
        return (← Declaration.addIvars id buffer rest) || recorded) :=
      L.bind ih fun _ => L.pure ..
    refine L.bind (part ..) fun identifier => L.bind (part ..) fun name => ?_
    refine L.get (fun _ _ hs => by rw [hs.symbols]) fun s => L.bind (key _) fun k => ?_
    refine L.bind (ofOption _) fun found => ?_
    cases found with
    | some earlier =>
      let className := ((s.symbols.class? id).map (·.name.display)).getD ""
      have h := L.seq ((L.judges f).errorNote identifier
        s!"redeclaration of instance variable '{name.display}' in class '{className}'"
        earlier.1.node s!"previous declaration is here, in class '{earlier.2.name.display}'") <|
        hrest false
      rw [bind_assoc] at h
      exact h
    | none => exact L.bind (hd.addIvar id buffer declaration identifier name _) hrest

theorem writeIvars (ivars : Value) :
    L.Allows f (Declaration.writeIvars id ivars buffer) := by
  unfold Declaration.writeIvars
  split
  · exact L.pure ..
  refine L.seq (template _ (by simp [tempsHeader])) ?_
  have hadd : L.Allows f (do Declaration.addIvars id buffer (← Gen.items ivars)) :=
    L.bind (ofOption _) fun vs => hd.addIvars id buffer vs
  have hall := shifted_bind .levels hadd fun hasAccessors : Bool =>
    L.bind (template buffer (s := "\n]);") (by simp [tempsHeader])) fun _ => L.pure f hasAccessors
  simp only [bind_assoc] at hall
  exact hall

/-! ### Classes -/

theorem addProtocols (protocols : List Value) :
    L.Allows f (Declaration.addProtocols id protocols) :=
  (L.judges f).addProtocols (fun _ _ _ => hd.modifyClass f id fun _ => rfl) protocols

end Revises

theorem Members.classMembers (hd : L.Members) (hw : L.Walks walk) (ht : L.Owns t)
    (id : ClassId)
    (ivars protocols : Value) (comment : String) (frame : FrameId) (hasAccessors : Bool) :
    L.Mixed site.frame frame
      (Declaration.classMembers walk t id ivars protocols comment frame site hasAccessors) := by
  have hend := hd.endClass (f := site.frame) id protocols comment site.buffer
  refine Mixed.fieldItems_bind ht fun vs hvs => ?_
  have hmembers : L.Allows { site with frame }.frame _ := hw.inTurn hvs
  refine .bind (.inside hmembers) fun _ => .outside ?_
  cases hasAccessors with
  | true =>
    have hadd : L.Allows site.frame (do Declaration.addAccessors id [] (← Gen.items ivars)) :=
      L.bind (ofOption _) fun vs => hd.starts.addAccessors id [] vs
    have hall := shifted_bind .levels hadd fun _ => hend
    simp only [bind_assoc] at hall
    exact hall
  | false => exact hend

namespace Declares

variable (hd : L.Declares)

include hd

theorem registers : L.Registers := .of_records hd.records

theorem revises : L.Revises := .of_records hd.records

theorem members : L.Members := ⟨hd.registers.methods, hd.setMethods⟩

theorem classDeclaration (hw : L.Walks walk) (ht : L.Owns t) :
    L.Allows site.frame (Declaration.classDeclaration walk t site) := by
  refine L.bind (ofOption _) fun identifier => L.bind (part ..) fun name => ?_
  refine L.bind ((L.judges _).isUnique ..) fun unique => ?_
  dsimp only
  split
  · exact L.pure ..
  refine L.seq hd.members.openMethods <| L.bind ((hd.records _).newClass ..) fun id => ?_
  refine field_bind ht fun protocols hprotocols => itemsIfTrue_bind hprotocols fun conformed _ => ?_
  refine L.seq (hd.revises.addProtocols id conformed) <|
    L.bind ((L.judges _).protocolNames _) fun names => ?_
  refine L.bind (startClass ..) fun comment => L.seq (writeProtocols ..) ?_
  refine L.get (fun _ _ hs => by rw [hs.symbols]) fun s => ?_
  refine hd.newBody (.inl rfl) rfl rfl rfl rfl rfl rfl fun frame => ?_
  refine Mixed.field_bind ht fun ivars _ => Mixed.field_bind ht fun category _ => ?_
  have hbody (hasAccessors : Bool) : L.Mixed site.frame frame (do
      register (·.registerClass id)
      Declaration.classMembers walk t id ivars protocols comment frame site hasAccessors) :=
    .bind (.outside ((hd.records _).register fun _ _ => Symbols.not_isLimit_registerClass)) fun _ =>
      hd.members.classMembers hw ht ..
  split
  · refine .bind (.outside (template _ (by simp [tempsHeader]))) fun _ => ?_
    exact .bind (.outside (hd.revises.writeIvars ..)) hbody
  · exact hbody false

end Declares

/-! ### Protocols -/

theorem writeIncorporated (isFirst : Bool) (name : Value) :
    L.Allows f (Declaration.writeIncorporated buffer isFirst name) := by
  cases isFirst with
  | true => exact template _ (ne_tempsHeader (protocolLookup_take (.inr (.inr rfl)) rfl))
  | false =>
    exact L.seq (text ..) <| template _ (ne_tempsHeader (protocolLookup_take (.inr (.inl rfl)) rfl))

theorem incorporate (isFirst : Bool) (protocols : List Value) :
    L.Allows f (Declaration.incorporate buffer isFirst protocols) := by
  induction protocols generalizing isFirst with
  | nil => exact L.pure ..
  | cons protocol rest ih =>
    refine L.bind (part ..) fun name => ?_
    refine L.get (fun _ _ hs => by rw [hs.symbols]) fun s => L.bind (key _) fun k => ?_
    split
    · exact L.seq (writeIncorporated ..) <| L.bind (ih false) fun _ => L.pure ..
    · exact L.bind ((L.judges f).unknownProtocol _) fun _ => L.seq (L.error ..) <| ih isFirst

theorem startProtocol (ht : L.Owns t) (shown : String) :
    L.Allows f (Declaration.startProtocol t shown buffer) := by
  refine L.bind (L.newBuffer f) fun scratch => ?_
  refine field_bind ht fun protocols hprotocols => itemsIfTrue_bind hprotocols fun vs _ => ?_
  refine L.bind (incorporate ..) fun incorporated => ?_
  refine L.bind ((L.judges f).mapM fun _ => textOf _) fun names => ?_
  refine L.seq (continuedAt _ _ (ne_tempsHeader (n := 1) ?_)) <| L.seq (splice ..) <| L.pure ..
  simp [toString, String.toList_append, tempsHeader]

theorem Bodies.protocolDeclaration (hd : L.Bodies) (hr : L.Registers) (hw : L.Walks walk)
    (ht : L.Owns t) :
    L.Allows site.frame (Declaration.protocolDeclaration walk t site) := by
  have hmembers : L.Members := ⟨hr.methods, hd.setMethods⟩
  refine L.bind (ofOption _) fun identifier => L.bind (part ..) fun name => ?_
  refine L.bind ((L.judges _).isUnique ..) fun unique => ?_
  dsimp only
  split
  · exact L.pure ..
  refine L.seq hmembers.openMethods <| L.bind (startProtocol _ ht _) fun start => ?_
  refine L.seq (template _ (by simp [tempsHeader])) ?_
  refine L.bind (hr.newProtocol ..) fun id => ?_
  refine hd.newBody (.inr rfl) rfl rfl rfl rfl rfl rfl fun frame => ?_
  refine Mixed.fieldItems_bind ht fun required hrequired => ?_
  have hwalks {vs : List Value} (hvs : ∀ v ∈ vs, L.Admits v) :
      L.Allows { site with frame }.frame _ := hw.inTurn hvs
  refine .bind (.inside (hwalks hrequired)) fun _ => .bind (.outside (hd.optional ..)) fun _ => ?_
  refine Mixed.fieldItems_bind ht fun optional hoptional => ?_
  exact .bind (.inside (hwalks hoptional)) fun _ => .outside (hmembers.endProtocol ..)

namespace Registers

variable (hd : L.Registers)

include hd

/-! ### Announcements -/

theorem announceNames (identifiers : List Value) :
    L.Allows f (Statement.announceNames t f identifiers) := by
  induction identifiers with
  | nil => exact L.pure ..
  | cons identifier rest ih =>
    have hrest (name : Value) (type : Option String) : L.Allows f (do
        let more ← Statement.announceNames t f rest
        return (name.display :: more.1, type.toList ++ more.2)) :=
      L.bind ih fun _ => L.pure ..
    refine L.bind (part ..) fun name => L.bind ((L.judges f).isUnique ..) fun unique => ?_
    dsimp only
    split
    · exact L.bind (hd.announceName ..) (hrest name)
    · exact hrest name none

omit hd in
theorem typeLines_take {types : List String} (h : types ≠ []) :
    ("\n" ++ "\n".intercalate (types.map Statement.typeLine)).toList.take 2 = ['\n', 'o'] := by
  have hline (type : String) : (Statement.typeLine type).toList =
      "objj_registerTypeDef(objj_allocateTypeDef(\"".toList ++ (type.toList ++ "\"));".toList) := by
    unfold Statement.typeLine
    rw [String.toList_append, String.toList_append, List.append_assoc]
  obtain ⟨type, rest, rfl⟩ := List.exists_cons_of_ne_nil h
  cases rest with
  | nil =>
    rw [List.map_cons, List.map_nil, String.intercalate_singleton, String.toList_append, hline]
    simp
  | cons other rest =>
    rw [List.map_cons, List.map_cons, String.intercalate_cons_cons, String.toList_append,
      String.toList_append, String.toList_append, hline]
    simp

theorem announce (keyword : String) : L.Allows site.frame (Statement.announce t keyword site) := by
  refine L.bind (fieldItems ..) fun vs => L.bind (hd.announceNames vs) fun announced => ?_
  refine L.seq (textAt ..) ?_
  split
  · rename_i htypes
    refine template _ (ne_tempsHeader (n := 2) ?_)
    rw [typeLines_take (by simpa using htypes)]
    simp [tempsHeader]
  · exact L.pure ..

end Registers

theorem Declares.declarations (hd : L.Declares) : L.Declarations where
  classDeclaration hw ht _ := hd.classDeclaration hw ht
  protocolDeclaration hw ht _ := hd.protocolDeclaration hd.registers hw ht
  announce keyword _ _ := hd.registers.announce keyword
  startMethod _ kind := hd.members.startMethod kind

end Law

end ObjectiveJ
