import ObjectiveJ.Proofs.Law.Function
import ObjectiveJ.Proofs.Law.Walk

/-!
# Laws for programs

A law that allows temps to be taken, and frames to be opened inside of others, allows whole programs
(`Law.Scopes.generate`). A law that does not depend on the frame has to say less (`Law.Runs`).
-/

namespace ObjectiveJ

open Gen

/-- Whether a frame is the body of a class or a protocol. -/
def FrameKind.isBody : FrameKind → Bool
  | classBody | protocolBody => true
  | _ => false

/-- What is done with a frame that is opened inside of another one. In the end its references may be
handed on to that one. -/
inductive Law.Nested (L : Law) (f inner : FrameId) : Gen Unit → Prop
  | mixed {m : Gen Unit} : L.Mixed f inner m → L.Nested f inner m
  | bind {α : Type} {m : Gen α} {k : α → Gen Unit} : L.Mixed f inner m →
    (∀ a, L.Nested f inner (k a)) → L.Nested f inner (m >>= k)
  | handOn {m : Gen Unit} : L.Allows f m →
    L.Nested f inner (modifyFrames (·.copyIvarRefs inner) >>= fun _ => m)

/-- A node is entered under its type, or something in a parent is entered. -/
def Enters (Q : Tree → Prop) (type : String) (role : StatementRole) : Prop :=
  ∃ t, Q t ∧ (type = t.type.name ∧ role = roleOf t ∨ Ancestry.isParent t.type.name = true)

/-- A law for what is done in one frame. -/
structure Law.Nodes (L : Law) : Prop where
  /-- What enters or leaves a node, and the declaration of temps. -/
  instr : ∀ f {i : Instr}, i.isLevel = true → L.Allows f (Gen.emit i)
  within : ∀ {f type role} {body : Gen Unit}, Enters (fun t => L.Admits (.tree t)) type role →
    L.Allows f body → L.Allows f (Gen.within type role body)
  takeTemp : ∀ f id, L.Allows f (Message.takeTemp id)
  dropTemp : ∀ f id, L.Allows f (Message.dropTemp id)
  unpark : ∀ f id, L.Allows f (modifyFrames (·.setParked id []))
  declares : L.Declarations

/-- A law for whole programs. -/
structure Law.Scopes (L : Law) : Prop extends L.Nodes where
  scope : ∀ {f} {frame : Frame} {k : FrameId → Gen Unit}, frame.kind.isBody = false →
    frame.vars = {} → frame.ivarRefs = {} → frame.parked = [] →
    (∀ up, frame.parent = some up → up = f) → (∀ inner, L.Nested f inner (k inner)) →
    L.Allows f (Gen.newFrame frame >>= k)
  settle : ∀ f inner, L.Allows f (Gen.settle inner)
  recordMethod : ∀ f t kind selector types owner,
    L.Allows f (Declaration.recordMethod t kind selector types owner)

/-- A law for whole programs that does not depend on the frame. -/
structure Law.Runs (L : Law) : Prop extends L.Nodes where
  anyFrame : ∀ {f g : FrameId} {α : Type} {m : Gen α}, L.Allows f m → L.Allows g m
  newFrame : ∀ f {frame : Frame}, frame.kind.isBody = false → frame.vars = {} →
    frame.ivarRefs = {} →
    frame.parked = [] → L.Allows f (Gen.newFrame frame)
  opens : L.Opens

def Law.WalksBodies (L : Law) (walk : Walker) : Prop :=
  ∀ isLambda v site, L.Admits v → L.Allows site.frame (walk (.body isLambda) v site)

namespace Law

variable {L : Law} {f inner : FrameId} {t : Tree} {site : Site} {α β : Type} {walk : Walker}

/-- Where the frame does not matter, steps in two frames are steps. -/
theorem Mixed.allows (hany : ∀ {f g : FrameId} {α : Type} {m : Gen α}, L.Allows f m → L.Allows g m)
    {m : Gen α} (h : L.Mixed f inner m) : L.Allows f m := by
  induction h with
  | outside hm => exact hm
  | inside hm => exact hany hm
  | bind _ _ ihm ihk => exact L.bind ihm ihk
  | look hsame _ ih => exact L.get hsame ih
  | shifted sh _ ih => exact L.shifted sh ih

theorem Nested.field_bind {name : String} {k : Value → Gen Unit} (ht : L.Owns t)
    (hk : ∀ w, L.Admits w → L.Nested f inner (k w)) : L.Nested f inner (field t name >>= k) := by
  cases h : t.get? name with
  | none =>
    rw [Gen.field, h]
    exact .mixed (.outside (L.throw f _ rfl))
  | some w =>
    rw [Gen.field, h]
    exact hk w (ht h)

theorem Runs.scopes (hr : L.Runs) : L.Scopes where
  toNodes := hr.toNodes
  scope hkind hvars hrefs hparked _ hk := by
    have hnested {f inner : FrameId} {m : Gen Unit} (hm : L.Nested f inner m) : L.Allows f m := by
      induction hm with
      | mixed hm => exact hm.allows hr.anyFrame
      | bind hm _ ih => exact L.bind (hm.allows hr.anyFrame) ih
      | handOn hm => exact L.seq (hr.opens.copyIvarRefs ..) hm
    exact L.bind (hr.newFrame _ hkind hvars hrefs hparked) fun inner => hnested (hk inner)
  settle := hr.opens.settle
  recordMethod := hr.opens.recordMethod

theorem walks_iff : L.Walks walk ∧ (L.Parental → L.WalksBodies walk) ↔
    ∀ manner v site, manner = .plain ∨ L.Parental → L.Admits v →
      L.Allows site.frame (walk manner v site) := by
  refine ⟨fun h manner v site hmanner hv => ?_,
    fun h => ⟨fun manner v site hmanner => h manner v site (hmanner.imp_right And.right),
      fun hp _ v site => h _ v site (.inr hp)⟩⟩
  cases manner with
  | plain => exact h.1 _ v site (.inl rfl) hv
  | elseIf => exact h.1 _ v site (hmanner.imp_right fun hp => ⟨rfl, hp⟩) hv
  | body isLambda => exact h.2 (hmanner.resolve_left Manner.noConfusion) isLambda v site hv

namespace Scopes

variable (hr : L.Scopes)

include hr

theorem hooked {type : String} {buffer : Nat} {body : Gen Unit} (hbody : L.Allows f body) :
    L.Allows f (do
      Gen.hook buffer type "before"
      body
      Gen.hook buffer type "after") := by
  have hbefore : L.Allows f (Gen.hook buffer type "before") :=
    L.get (fun _ _ hs => by rw [hs.ancestry]) fun _ => hr.instr f rfl
  have hafter : L.Allows f (Gen.hook buffer type "after") :=
    L.get (fun _ _ hs => by rw [hs.ancestry]) fun _ => hr.instr f rfl
  exact L.seq hbefore <| L.seq hbody hafter

theorem encloses (hp : L.Parental) : L.Encloses := fun _ hbody => by
  obtain ⟨t, ht, hparent⟩ := hp
  exact hr.within ⟨t, ht, .inr hparent⟩ (hr.hooked hbody)

theorem closeFrame (id buffer : Nat) : L.Allows f (Gen.closeFrame id buffer) := by
  have hused (s s' : GenState) (hs : s.Concurs s') :
      (s'.frames.frame? id).map (·.maxLevel) = (s.frames.frame? id).map (·.maxLevel) :=
    hs.map_frame? id fun _ => rfl
  refine L.get (fun s s' hs => by simp only [hused s s' hs]) fun s => ?_
  dsimp only
  split
  · exact L.pure ..
  · exact L.seq (hr.instr f rfl) <| L.seq (text ..) <| text ..

/-! ### Scopes -/

theorem block (hw : L.Walks walk) (ht : L.Owns t) (isBody : Bool) (site : Site) :
    L.Allows site.frame (Statement.block walk t isBody site) := by
  cases isBody with
  | false => exact hw.block ht
  | true =>
    have hbody : L.Allows site.frame (do
        Gen.inTurn walk (← Gen.fieldItems t "body") site
        Gen.closeFrame site.frame site.buffer) :=
      fieldItems_bind ht fun _ hvs => L.seq (hw.inTurn hvs) <| hr.closeFrame ..
    have hall := L.enclosed .braces site.buffer site.type "\x7b" "\x7d" none hbody
    simp only [bind_assoc] at hall
    exact hall

theorem functionTail (isGlobal : Bool) (name : Option Value) :
    L.Nested site.frame inner (Function.tail isGlobal name inner site) := by
  unfold Function.tail
  split
  · exact .bind (.outside (text ..)) fun _ => .handOn (hr.settle ..)
  · exact .handOn (hr.settle ..)

theorem function (hb : L.WalksBodies walk) (ht : L.Owns t) :
    L.Allows site.frame (Function.compile walk t site) := by
  refine L.bind (ofOption _) fun id => L.bind (functionName? id) fun name => ?_
  refine hr.scope rfl rfl rfl rfl (fun _ h => (Option.some.inj h).symm) fun inner => ?_
  refine .bind (Mixed.heads.functionHead id name) fun isGlobal => ?_
  refine .field_bind ht fun body hbody => .bind (.outside (isLambda body)) fun lambda => ?_
  refine .bind (.inside (hb lambda body { site with frame := inner } hbody)) fun _ => ?_
  exact hr.functionTail ..

theorem program (hp : L.Parental) (hw : L.Walks walk) (ht : L.Owns t) :
    L.Allows site.frame (Statement.program walk t site) := by
  have hsettle : L.Allows site.frame (Gen.settle site.frame) := hr.settle ..
  refine L.get (fun _ _ hs => by rw [hs.objjScope]) fun s => ?_
  split
  · refine hr.scope rfl rfl rfl rfl (fun _ h => (Option.some.inj h).symm) fun file => .mixed ?_
    have hblock := hr.block hw ht true { site with frame := file, type := "BlockStatement" }
    refine .bind (.outside (text ..)) fun _ => .bind (.inside ?_) fun _ => ?_
    · obtain ⟨parent, hadmits, hparent⟩ := hp
      exact hr.within ⟨parent, hadmits, .inr hparent⟩ hblock
    exact .outside (L.seq (text ..) <| L.seq (hr.settle ..) hsettle)
  · exact fieldItems_bind ht fun _ hvs => L.seq (hw.inTurn hvs) hsettle

theorem methodCode (hb : L.WalksBodies walk) (ht : L.Owns t) (marker selector : Value)
    (types params : List Value) :
    L.Mixed site.frame inner
      (Declaration.methodCode walk t marker selector types params inner site) := by
  refine .bind (.outside (hr.declares.methodStart ..)) fun buffer =>
    .field_bind ht fun body hbody => ?_
  have hend : L.Allows site.frame (do
      Declaration.signature types buffer
      Gen.text buffer ")") := L.seq (signature ..) <| text ..
  dsimp only
  split
  · exact .outside (L.seq (text ..) hend)
  · refine .bind (Mixed.heads.methodHead ..) fun _ => ?_
    exact .bind (.inside (hb false body { site with frame := inner, buffer } hbody))
      fun _ => .outside hend

theorem methodOf (hb : L.WalksBodies walk) (ht : L.Owns t) (owner : MethodOwner) :
    L.Allows site.frame (Declaration.methodOf walk t owner site) := by
  refine L.bind (ofOption _) fun marker => L.bind ((L.judges _).methodTypes _) fun types => ?_
  refine L.bind (fieldItems ..) fun params => L.bind (ofOption _) fun selectors => ?_
  refine L.bind ((L.judges _).selector ..) fun selector => L.seq ?_ ?_
  · cases owner.classId with
    | none => exact L.pure ..
    | some id => exact (L.judges _).setterConflicts ..
  refine hr.scope rfl rfl rfl rfl (fun _ h => (Option.some.inj h).symm) fun inner => .mixed ?_
  have hend : L.Mixed site.frame inner (do
      Declaration.recordMethod t (.ofMarker marker) selector types owner
      Gen.settle inner) := .outside (L.seq (hr.recordMethod ..) <| hr.settle ..)
  dsimp only
  split
  · have hcode : L.Mixed site.frame inner
        (Declaration.methodCode walk t marker selector types params inner site) :=
      hr.methodCode hb ht ..
    have hshifted := Mixed.shifted .levels hcode
    simp only [bind_pure_unit] at hshifted
    exact .bind hshifted fun _ => hend
  · exact hend

theorem method (hb : L.WalksBodies walk) (ht : L.Owns t) :
    L.Allows site.frame (Declaration.method walk t site) := by
  refine L.get (fun _ _ hs => by rw [hs.methodOwner?]) fun s => L.bind (ofOption _) fun owner => ?_
  dsimp only
  split
  · exact L.seq (L.fatalAt _ _ _ rfl) <| hr.methodOf hb ht owner
  · exact hr.methodOf hb ht owner

/-! ### Messages and literals -/

section Messages

variable {args : List Value} {receiver : Value}

variable (hw : L.Walks walk) (p : Bool → Prop) (location : Option Location)
  (className initializer : String) (withCount : Bool)

include hw

omit hr in
theorem writeArray {list : Value} (hlist : L.Admits list) :
    L.Allows site.frame (Message.writeArray walk site list) := by
  refine L.seq (text ..) <| items_bind hlist fun vs hvs => ?_
  exact L.seq (between (text ..) fun v hv => hw.plain (hvs v hv) site) <| text ..

omit hr in
theorem allocated_styled {first : Value}
    {more : List Value} (hfirst : L.Admits first)
    (hmore : ∀ v ∈ more, L.Admits v) (isInline isInline' : Bool) (temp : String) :
    Styled (@L.Allows site.frame) p
      (Message.allocated walk t className initializer first more withCount site isInline temp)
      (Message.allocated walk t className initializer first more withCount site
        isInline' temp) := by
  have hlists : ∀ v ∈ first :: more, L.Admits v := by
    intro v hv
    rcases List.mem_cons.1 hv with rfl | hv
    · exact hfirst
    · exact hmore v hv
  have hcount : L.Allows site.frame (Message.writeCount withCount first site.buffer) := by
    unfold Message.writeCount
    split
    · exact L.bind (items _) fun _ => text ..
    · exact L.pure ..
  refine .write rfl rfl <| .write rfl rfl <| .write rfl rfl ?_
  unfold Message.initialized
  split
  · refine .write rfl rfl <| .same <| L.seq (text ..) <|
      L.seq (forM fun v hv => writeArray hw (hlists v hv)) ?_
    exact L.seq hcount <| text ..
  · exact .write rfl rfl <| .emit rfl rfl

theorem allocInit {first : Value} {more : List Value} (hfirst : L.Admits first)
    (hmore : ∀ v ∈ more, L.Admits v) : L.Allows site.frame
      (Message.allocInit walk t className initializer first more withCount site) := by
  have hdrop : L.Allows site.frame (Message.dropTemp site.frame) := hr.dropTemp ..
  unfold Message.allocInit
  refine L.style (fun _ _ _ hs => by rw [hs]) fun s s' _ => ?_
  refine .bind (.same (hr.takeTemp ..)) fun temp => .bind ?_ fun _ => .same hdrop
  exact allocated_styled hw _ _ _ _ hfirst hmore _ _ temp

omit hr in
theorem endCall (selector : String) (hargs : ∀ v ∈ args, L.Admits v) :
    L.Allows site.frame (Message.endCall walk selector args site) :=
  L.seq (text ..) <|
    L.seq (forM fun v hv => L.seq (text ..) <| hw.plain (hargs v hv) site) <| text ..

omit hr hw in
theorem superCall_styled (selector suffix shown : String)
    (isInline isInline' : Bool) :
    Styled (@L.Allows site.frame) p
      (Message.superCall location selector suffix shown isInline site)
      (Message.superCall location selector suffix shown isInline' site) := by
  unfold Message.superCall
  cases isInline <;> cases isInline' <;>
    exact .write rfl rfl <| .emit rfl rfl

omit hr hw in
theorem writeSuper (selector suffix : String) :
    L.Allows site.frame (Message.writeSuper location selector suffix site) := by
  have hsame (s s' : GenState) (hs : s.Concurs s') :
      (s'.frames.currentMethod site.frame).map (·.2.methodMarker) =
        (s.frames.currentMethod site.frame).map (·.2.methodMarker) := by
    have hmethod := congrArg (Option.map (·.2.methodMarker)) (hs.currentMethod site.frame)
    simp only [Option.map_map] at hmethod
    exact hmethod
  unfold Message.writeSuper
  refine L.style (fun s s' hs hsettings => ?_) fun s s' hs => ?_
  · simp only [hsame s s' hs, hs.currentClass, hs.superRef, hs.symbols, hsettings]
  · simp only [hsame s s' hs, hs.currentClass, hs.superRef, hs.symbols]
    split
    · exact .same (L.fatalAt _ _ _ rfl)
    split
    · exact .same (L.fatalAt _ _ _ rfl)
    split
    · exact .bind (.same (L.fatalAt _ _ _ rfl)) fun _ => superCall_styled _ _ _ _ _ _ _
    · exact superCall_styled _ _ _ _ _ _ _

omit hr hw in
theorem plainName? (receiver : Value) : L.Allows f (Message.plainName? inner receiver) := by
  unfold Message.plainName?
  split
  · exact L.pure ..
  · refine L.bind (part ..) fun name => L.bind (key _) fun k => ?_
    refine L.seq (L.setContext _ _ fun _ => rfl) ?_
    refine L.get (fun s s' hs => ?_) fun _ => L.pure ..
    have hivar : Message.isIvar s' inner k = Message.isIvar s inner k := by
      simp only [Message.isIvar, hs.lookup, hs.currentMarker, hs.ivar]
    rw [hivar]

omit hr hw in
theorem callText (selector : String) (args : Nat) {k : Gen β} (hk : L.Allows site.frame k) :
    L.Allows site.frame (do
      Gen.text site.buffer
        (Message.callText (← MonadState.get).settings.inlineMsgSend selector args)
      k) :=
  L.style (fun _ _ _ hs => by rw [hs]) fun _ _ _ => .write rfl rfl <| .same hk

omit hr in
theorem sendToName_styled (name : Key) (selector : String) (isInline isInline' : Bool)
    (scratch : Nat) (hreceiver : L.Admits receiver) (hargs : ∀ v ∈ args, L.Admits v) :
    Styled (@L.Allows site.frame) p
      (Message.sendToName walk receiver name selector args isInline scratch site)
      (Message.sendToName walk receiver name selector args isInline' scratch site) := by
  have hnil (s s' : GenState) (hs : s.Concurs s') :
      Message.mayBeNil s' site.frame name = Message.mayBeNil s site.frame name := by
    have hassigned (id : FrameId) : (s'.frames.frame? id).map (·.selfAssigned) =
        (s.frames.frame? id).map (·.selfAssigned) := hs.map_frame? id fun _ => rfl
    simp only [Message.mayBeNil, hs.lookup, hs.symbols, hassigned]
  have hcall : Styled (@L.Allows site.frame) p
      (Message.callName walk selector args isInline scratch site)
      (Message.callName walk selector args isInline' scratch site) := by
    refine .optional rfl rfl <| .same <| L.seq (splice ..) <| callText _ _ ?_
    exact L.seq (text ..) <| L.seq (splice ..) <| endCall hw _ hargs
  refine .look (fun s s' hs => by simp only [hnil s s' hs])
    (fun s s' hs => by simp only [hnil s s' hs])
    fun s => .bind (.same (hw.plain hreceiver { site with buffer := scratch })) fun _ => ?_
  cases Message.mayBeNil s site.frame name with
  | true =>
    refine .write rfl rfl <| .write rfl rfl <| .write rfl rfl ?_
    exact .bind hcall fun _ => .same (text ..)
  | false => exact hcall

omit hr in
theorem stored_styled (first : Value) (selector : String) (isInline isInline' : Bool)
    (scratch : Nat) (temp : String)
    (hreceiver : L.Admits receiver) (hargs : ∀ v ∈ args, L.Admits v) :
    Styled (@L.Allows site.frame) p
      (Message.stored walk receiver first selector args isInline scratch site temp)
      (Message.stored walk receiver first selector args isInline' scratch site temp) := by
  refine .bind (.same (hw.plain hreceiver { site with buffer := scratch })) fun _ => ?_
  refine .write rfl rfl <| .write rfl rfl <| .write rfl rfl ?_
  refine .write rfl rfl <| .same (callText _ _ ?_)
  exact L.seq (text ..) <| L.seq (text ..) <| endCall hw _ hargs

theorem sendTo (first : Value) (selector : String) (hreceiver : L.Admits receiver)
    (hargs : ∀ v ∈ args, L.Admits v) (site : Site) :
    L.Allows site.frame (Message.sendTo walk receiver first selector args site) := by
  unfold Message.sendTo
  split
  · exact L.seq (writeSuper ..) <| endCall hw _ hargs
  · refine L.style (fun _ _ _ hs => by rw [hs]) fun s s' _ => ?_
    refine .bind (.same (plainName? _)) fun name => .bind (.same (L.newBuffer _)) fun scratch => ?_
    cases name with
    | some name => exact sendToName_styled hw _ _ _ _ _ _ hreceiver hargs
    | none =>
      have hdrop : L.Allows site.frame (Message.dropTemp site.frame) := hr.dropTemp ..
      refine .bind (.bind (.same (hr.takeTemp ..)) fun temp => ?_) fun _ => .same (text ..)
      exact .bind (stored_styled hw _ first _ _ _ _ temp hreceiver hargs) fun _ => .same hdrop

theorem send (ht : L.Owns t) : L.Allows site.frame (Message.send walk t site) := by
  have hsend {receiver : Value} (hreceiver : L.Admits receiver) (parts first : Value) :
      L.Allows site.frame (Message.sendParts walk t receiver parts first site) := by
    refine fieldItems_bind ht fun args hargs => L.bind ((L.judges _).selector ..) fun selector => ?_
    refine field_bind ht fun more hmore => itemsIfTrue_bind hmore fun varArgs hvarArgs => ?_
    have hall : ∀ v ∈ args ++ varArgs, L.Admits v := by
      intro v hv
      rcases List.mem_append.1 hv with hv | hv
      · exact hargs v hv
      · exact hvarArgs v hv
    exact hr.sendTo hw first _ hreceiver hall { site with inMessage := true }
  refine field_bind ht fun receiver hreceiver => field_bind ht fun parts _ => ?_
  refine L.bind ((L.judges _).firstPart parts) fun first => ?_
  dsimp only
  split
  · exact L.seq (sourceComment ..) <| hsend hreceiver parts first
  · exact hsend hreceiver parts first

end Messages

/-! ### Programs -/

theorem form (hw : L.Walks walk) (hb : L.Parental → L.WalksBodies walk) (ht : L.Owns t)
    (hp : Ancestry.isParent t.type.name = true → L.Parental) (site : Site) :
    L.Allows site.frame (compileForm walk t site) := by
  by_cases htype : t.type ∈ scopedTypes
  · simp only [scopedTypes, List.mem_cons, List.not_mem_nil, or_false] at htype
    unfold compileForm
    rcases htype with htype | htype | htype | htype | htype | htype | htype
    · rw [htype] at hp ⊢
      exact hr.program (hp rfl) hw ht
    · rw [htype] at hp ⊢
      exact hr.function (hb (hp rfl)) ht
    · rw [htype] at hp ⊢
      exact hr.function (hb (hp rfl)) ht
    · rw [htype] at hp ⊢
      exact hr.method (hb (hp rfl)) ht
    · rw [htype]
      exact hr.send hw ht
    · rw [htype]
      exact field_bind ht fun elements helements => hr.allocInit hw _ _ _ helements (by rintro _ ⟨⟩)
    · rw [htype]
      refine field_bind ht fun values hvalues => field_bind ht fun keys hkeys => ?_
      refine hr.allocInit hw _ _ _ hvalues fun v hv => ?_
      rw [List.mem_singleton.1 hv]
      exact hkeys
  · exact hw.form hr.encloses hr.declares ht hp htype

theorem compiles (hw : L.Walks walk) (hb : L.Parental → L.WalksBodies walk) (ht : L.Owns t)
    (hp : Ancestry.isParent t.type.name = true → L.Parental) {manner : Manner}
    (hmanner : manner = .plain ∨ L.Parental) (site : Site) :
    L.Allows site.frame (compileAs walk t manner site) := by
  cases manner with
  | plain => exact hr.form hw hb ht hp site
  | elseIf =>
    have hp : L.Parental := hmanner.resolve_left Manner.noConfusion
    exact hw.branch ht hp (hr.encloses hp)
  | body isLambda => exact hr.block hw ht true site

theorem step (hw : L.Walks walk) (hb : L.Parental → L.WalksBodies walk) :
    L.Walks (ObjectiveJ.step walk) ∧ (L.Parental → L.WalksBodies (ObjectiveJ.step walk)) := by
  refine walks_iff.2 fun manner v site hmanner hv => ?_
  cases v with
  | tree t =>
    have hcode := hr.compiles hw hb (L.owns hv) (fun h => ⟨t, hv, h⟩) hmanner
      { site with type := layoutType t manner }
    refine hr.within ?_ (hr.hooked hcode)
    cases manner with
    | plain => exact ⟨t, hv, .inl ⟨rfl, rfl⟩⟩
    | _ =>
      obtain ⟨parent, hadmits, hparent⟩ := hmanner.resolve_left Manner.noConfusion
      exact ⟨parent, hadmits, .inr hparent⟩
  | _ => exact L.throw _ _ rfl

theorem walks (n : Nat) :
    L.Walks (ObjectiveJ.walk n) ∧ (L.Parental → L.WalksBodies (ObjectiveJ.walk n)) := by
  induction n with
  | zero => exact walks_iff.2 fun _ _ _ _ _ => L.throw _ _ rfl
  | succ n ih => exact hr.step ih.1 ih.2

theorem code (n : Nat) (h : ∀ v, L.Admits v) (manner : Manner) (site : Site) :
    L.Allows site.frame (compileAs (ObjectiveJ.walk n) t manner site) :=
  hr.compiles (hr.walks n).1 (hr.walks n).2 (fun _ _ _ => h _) (fun _ => parental h)
    (.inr (parental h)) site

/-- A law for programs allows the code of every program. -/
theorem generate {program : Value} (hprogram : L.Admits program) (f : FrameId) :
    L.Allows f (ObjectiveJ.generate program) := by
  refine hr.scope rfl rfl rfl rfl nofun fun root => .mixed ?_
  refine .bind (.inside ((hr.walks _).1.plain hprogram { frame := root })) fun _ => ?_
  exact .outside (L.seq (hr.closeFrame ..) <| hr.unpark ..)

end Scopes

end Law

end ObjectiveJ
