import ObjectiveJ.Proofs.Law.Statement
import ObjectiveJ.Proofs.Temps.Taking

/-!
# Temps of messages and literals

A literal takes one temp. A message takes one too, unless it goes to `super` or to a plain variable.
-/

namespace ObjectiveJ

open Gen

/-- Whether a message takes a temp for its receiver: that is neither `super` nor an identifier, or
it is an identifier that stands for an instance variable. -/
def Message.takesTemp (s : GenState) (frame : FrameId) (receiver : Value) : Bool :=
  !receiver.isNode .superReceiver && (!receiver.isNode .identifier ||
    ((receiver.part? "name").bind Value.key?).any (isIvar s frame))

/-- Whether a name stands for an instance variable does not depend on what is compiled around it. -/
theorem Message.isIvar_setContext (s : GenState) (frame id : FrameId) (g : Context → Context)
    (name : Key) :
    isIvar { s with frames := s.frames.setContext frame g } id name = isIvar s id name := by
  let changed (i : FrameId) (f : Frame) : Frame :=
    { f with context := if frame = i then g f.context else f.context }
  have hchain : (s.frames.setContext frame g).chain id =
      (s.frames.chain id).map fun p => (p.1, changed p.1 p.2) := by
    refine Frames.chain_map _ _ (h := changed) (fun i => ?_) fun _ _ => rfl
    rw [Frames.setContext, Frames.frame?_modify]
    split <;> simp [changed, *]
  have hlookup : (s.frames.setContext frame g).lookup id name = s.frames.lookup id name := by
    rw [Frames.lookup, hchain]
    exact Frames.lookupIn_map name (h := fun p => (p.1, changed p.1 p.2)) (fun _ => rfl)
      (fun _ => rfl) false _
  simp only [isIvar, hlookup, Frames.currentMarker, Frames.ivar, Frames.currentMethod,
    Frames.currentClass, hchain, List.find?_map, List.findSome?_map, Option.map_map,
    Option.isNone_map]
  rfl

theorem Message.wp_plainName? (s : GenState) (frame : FrameId) {receiver : Value}
    (hsuper : receiver.isNode .superReceiver = false) :
    wp (plainName? frame receiver) (fun name _ => name.isNone = takesTemp s frame receiver)
      (fun _ _ => True) s := by
  unfold plainName?
  cases hname : receiver.isNode .identifier with
  | false => simp [takesTemp, hsuper, hname]
  | true =>
    refine (wp_bind ..).2 (wp_ofOption (fun name hpart => ?_) fun _ => trivial)
    refine (wp_bind ..).2 (wp_ofOption (fun key hkey => ?_) fun _ => trivial)
    have htakes : takesTemp s frame receiver = isIvar s frame key := by
      simp [takesTemp, hsuper, hname, hpart, hkey]
    simp only [setContext, modifyFrames, wp_bind, wp_modify, wp_get, wp_pure, isIvar_setContext,
      htakes]
    cases isIvar s frame key <;> rfl

variable {buffer : Nat} {level : Int} {type : String}

/-- The walk of a part writes the visit of one node. -/
def VisitsNodes (wrapped : Bool) (walk : Walker) : Prop :=
  ∀ manner v site, manner = .plain ∨ manner = .elseIf →
    Spent wrapped site.frame (walk manner v site) fun vs =>
      ∃ t inner, v = .tree t ∧ vs = .node (layoutType t manner) inner .nil

variable {wrapped : Bool} {frame : FrameId} {α β : Type} {walk : Walker} {t : Tree} {site : Site}

theorem VisitsNodes.walks (h : VisitsNodes wrapped walk) :
    (tempLaw wrapped closed_true).Walks walk :=
  fun manner v site hmanner _ =>
    (h manner v site (hmanner.imp_right And.left)).mono fun _ _ => trivial

theorem VisitsNodes.branch (h : VisitsNodes wrapped walk) (t : Tree) (site : Site) :
    (tempLaw wrapped closed_true).Allows site.frame (Statement.branch walk t site) :=
  h.walks.branch (fun _ _ _ => trivial) (Law.parental fun _ => trivial) tempLaw_encloses

namespace Visits

abbrev Bare (vs : Visits) : Prop := vs.isBare = true

abbrev Silent (vs : Visits) : Prop := vs.assigned = []

abbrev Plain (vs : Visits) : Prop := vs.assigned = [] ∧ vs.hasSplice = false

abbrev Assigns (level : Int) (vs : Visits) : Prop := ∀ n : Nat, level = n → vs.assigned = [n]

end Visits

open Visits (Bare Silent Plain Assigns)

namespace Spent

variable {location : Option Location} {k : α → Gen β} {m : Gen α} {s : String} {c : Char}

theorem bare_text (h : Visits.assignedTemp? s = none) :
    Spent wrapped frame (textAt buffer s location) Bare := by
  refine Spent.emit rfl nofun ?_
  split
  · rw [Bare, Visits.isBare, Visits.isBarePiece, Visits.assignedTemp?_of_start rfl]
    rfl
  · rw [Bare, Visits.isBare, Visits.isBarePiece, h]
    rfl

theorem bare_last (h : s.toList.getLast? = some c) (hc : c ≠ ' ') :
    Spent wrapped frame (textAt buffer s location) Bare :=
  bare_text (Visits.assignedTemp?_of_last (by simpa [h] using hc))

theorem bare_end {a b : String} (h : b.toList.getLast? = some c) (hc : c ≠ ' ') :
    Spent wrapped frame (textAt buffer (a ++ b) location) Bare := by
  refine bare_last ?_ hc
  rw [String.toList_append, List.getLast?_append, h]
  rfl

theorem bare_seq (hm : Spent wrapped frame m Bare) (hk : ∀ a, Spent wrapped frame (k a) Bare) :
    Spent wrapped frame (m >>= k) Bare :=
  hm.seq hk fun _ _ => Visits.isBare_append

theorem bare_quiets (h : Quiets m) : Spent wrapped frame m Bare := Spent.of_quiets h rfl

theorem bare_comment (buffer : Nat) (span : Span) :
    Spent wrapped frame (sourceComment buffer span) Bare := by
  refine bare_seq (bare_quiets ?_) fun shown => ?_
  · refine quiets_checks.bind Quiets.get fun s => ?_
    cases s.settings.source with
    | none => exact quiets_checks.pure _
    | some source =>
      dsimp only
      split <;> exact quiets_checks.pure _
  · cases shown with
    | none => exact bare_quiets (quiets_checks.pure _)
    | some shown =>
      refine bare_text (Visits.assignedTemp?_of_start ?_)
      change Visits.isOtherStart ("/* " ++ shown ++ " */ ").toList = true
      simp [String.toList_append, Visits.isOtherStart]

/-! ### Steps that assign no temp -/

theorem silent_seq (hm : Spent wrapped frame m Silent)
    (hk : ∀ a, Spent wrapped frame (k a) Silent) :
    Spent wrapped frame (m >>= k) Silent :=
  hm.seq hk fun _ _ hxs hys => by rw [Silent, Visits.assigned_append, hxs, hys]; rfl

theorem silent (h : Spent wrapped frame m Bare) :
    Spent wrapped frame m Silent :=
  h.mono fun _ => Visits.assigned_of_isBare

theorem silent_start (h : Visits.isOtherStart s.toList = true) :
    Spent wrapped frame (textAt buffer s location) Silent :=
  silent (bare_text (Visits.assignedTemp?_of_start h))

theorem silent_last (h : s.toList.getLast? = some c) (hc : c ≠ ' ') :
    Spent wrapped frame (textAt buffer s location) Silent :=
  silent (bare_last h hc)

theorem silent_end {a b : String} (h : b.toList.getLast? = some c) (hc : c ≠ ' ') :
    Spent wrapped frame (textAt buffer (a ++ b) location) Silent :=
  silent (bare_end h hc)

theorem silent_splice (target source : Nat) :
    Spent wrapped frame (splice target source) Silent :=
  Spent.emit rfl nofun rfl

theorem silent_walk (hw : VisitsNodes wrapped walk) (v : Value) (site : Site) :
    Spent wrapped site.frame (walk .plain v site) Silent :=
  (hw .plain v site (.inl rfl)).mono fun _ ⟨_, _, _, hvs⟩ => by rw [hvs]; rfl

theorem plain_seq (hm : Spent wrapped frame m Plain)
    (hk : ∀ a, Spent wrapped frame (k a) Plain) :
    Spent wrapped frame (m >>= k) Plain :=
  hm.seq hk fun _ _ hxs hys => by simp [Plain, hxs, hys]

theorem plain (h : Spent wrapped frame m Bare) :
    Spent wrapped frame m Plain :=
  h.mono fun _ hvs => ⟨Visits.assigned_of_isBare hvs, Visits.hasSplice_of_isBare hvs⟩

theorem first_seq
    (hm : Spent wrapped frame m fun vs => vs.assigned = [] ∧ vs.firstType? = some type)
    (hk : ∀ a, Spent wrapped frame (k a) Silent) :
    Spent wrapped frame (m >>= k) fun vs => vs.assigned = [] ∧ vs.firstType? = some type :=
  hm.seq hk fun _ _ hxs hys => by simp [hxs, hys]

theorem bare_first (hm : Spent wrapped frame m Bare)
    (hk : ∀ a, Spent wrapped frame (k a) fun vs => vs.assigned = [] ∧ vs.firstType? = some type) :
    Spent wrapped frame (m >>= k) fun vs => vs.assigned = [] ∧ vs.firstType? = some type :=
  hm.seq hk fun _ _ hxs hys => by
    simp [Visits.assigned_of_isBare hxs,
      Visits.firstType?_of_isFlat (Visits.isFlat_of_isBare hxs), hys]

theorem assigns_text {start : String} (hstart : start = "((" ∨ start = "(")
    (hs : s = start ++ tempName level ++ " = ") :
    Spent wrapped frame (textAt buffer s location) (Assigns level) := by
  refine Spent.emit rfl nofun fun n hn => ?_
  have hself : s ≠ "self." := by
    rintro rfl
    have hlast := congrArg (fun s => s.toList.getLast?) hs
    simp [String.toList_append, List.getLast?_append] at hlast
  rw [if_neg hself, Visits.assigned, Visits.assignedTemp?_eq_some n (hn ▸ hs) hstart]
  rfl

theorem assigns_seq (hm : Spent wrapped frame m (Assigns level))
    (hk : ∀ a, Spent wrapped frame (k a) Silent) :
    Spent wrapped frame (m >>= k) (Assigns level) :=
  hm.seq hk fun _ _ hxs hys n hn => by rw [Visits.assigned_append, hxs n hn, hys]; rfl

theorem silent_assigns (hm : Spent wrapped frame m Silent)
    (hk : ∀ a, Spent wrapped frame (k a) (Assigns level)) :
    Spent wrapped frame (m >>= k) (Assigns level) :=
  hm.seq hk fun _ _ hxs hys n hn => by rw [Visits.assigned_append, hxs, hys n hn]; rfl

end Spent

/-! ### Literals -/

open Spent

section

variable (hw : VisitsNodes wrapped walk) (isInline : Bool) (location : Option Location)
  (receiver first : Value) (selector : String) (args : List Value)

omit hw in
theorem Spent.forM {P : Visits → Prop} (hnil : P .nil)
    (happend : ∀ xs ys, P xs → P ys → P (xs ++ ys)) {write : Value → Gen Unit}
    (hwrite : ∀ v, Spent wrapped frame (write v) P) (vs : List Value) :
    Spent wrapped frame (vs.forM write) P := by
  induction vs with
  | nil => exact Spent.of_quiets (quiets_checks.pure _) hnil
  | cons v rest ih => exact (hwrite v).seq (fun _ => ih) happend

include hw

theorem listed_silent (vs : List Value) (site : Site) :
    Spent wrapped site.frame (between (text site.buffer ", ") (walk .plain · site) vs)
      Silent := by
  induction vs with
  | nil => exact silent (bare_quiets (quiets_checks.pure _))
  | cons v rest ih =>
    have hv := silent_walk hw v site
    cases rest with
    | nil => exact hv
    | cons w rest =>
      refine silent_seq hv fun _ => silent_seq (silent_start ?_) fun _ => ih
      simp [Visits.isOtherStart]

theorem arrays_silent (lists : List Value) (site : Site) :
    Spent wrapped site.frame (lists.forM (Message.writeArray walk site))
      Silent := by
  refine Spent.forM (P := Silent) rfl
    (fun _ _ hxs hys => by simp [Silent, hxs, hys]) (fun list => ?_) lists
  refine silent_seq (silent_start (by simp [Visits.isOtherStart])) fun _ => ?_
  refine silent_seq (silent (bare_quiets (quiets_checks.items _))) fun vs => ?_
  refine silent_seq (listed_silent hw vs site) fun _ => ?_
  exact silent_start (by simp [Visits.isOtherStart])

omit hw in
theorem getLast?_dispatch (receiver selector : String) (args : Nat) :
    (Message.dispatch isInline receiver selector args).toList.getLast? = some '(' := by
  cases isInline with
  | true =>
    rw [Message.dispatch, if_pos rfl, String.toList_append, List.getLast?_append]
    rfl
  | false =>
    rw [Message.dispatch, if_neg Bool.false_ne_true, String.toList_append, List.getLast?_append]
    rfl

theorem initialized_silent (initializer temp : String) (first : Value) (more : List Value)
    (withCount isInline : Bool) (site : Site) : Spent wrapped site.frame
      (Message.initialized walk initializer first more withCount site isInline temp)
      Silent := by
  have hcount : Spent wrapped site.frame (Message.writeCount withCount first site.buffer)
      Silent := by
    cases withCount with
    | true =>
      refine silent_seq (silent (bare_quiets (quiets_checks.items _))) fun vs => silent_start ?_
      simp [String.toList_append, Visits.isOtherStart]
    | false => exact silent (bare_quiets (quiets_checks.pure _))
  unfold Message.initialized
  split
  · refine silent_seq (silent_last (getLast?_dispatch ..) (by decide)) fun _ => ?_
    refine silent_seq (silent_end rfl (by decide)) fun _ => ?_
    refine silent_seq (arrays_silent hw _ site) fun _ => silent_seq hcount fun _ => ?_
    exact silent_last rfl (by decide)
  · refine silent_seq (silent_last (getLast?_dispatch ..) (by decide)) fun _ => ?_
    exact silent_end rfl (by decide)

theorem allocated_assigns {className initializer : String} {isInline withCount : Bool}
    {first : Value} {more : List Value}
    (hclass : className = "CPArray" ∨ className = "CPDictionary") : Spent wrapped site.frame
      (Message.allocated walk t className initializer first more withCount site isInline
        (tempName level))
      (Assigns level) := by
  refine assigns_seq (assigns_text (.inr rfl) rfl) fun _ => ?_
  have hcall : Spent wrapped site.frame (text site.buffer (if isInline then
      s!"({className}.isa.method_msgSend[\"alloc\"] || _objj_forward)"
      else s!"{className}.isa.objj_msgSend0")) Silent := by
    cases isInline with
    | true => exact silent_end rfl (by decide)
    | false => exact silent_end rfl (by decide)
  refine silent_seq hcall fun _ => silent_seq (silent_start ?_) fun _ =>
    initialized_silent hw _ _ _ _ _ _ _
  rcases hclass with rfl | rfl <;> simp [toString, String.toList_append, Visits.isOtherStart]

theorem allocInit_inside {className : String} (initializer : String) (withCount : Bool)
    (first : Value) (more : List Value) (hscope : Visits.isScope wrapped type = false)
    (htype : Visits.isLiteral type = true)
    (hclass : className = "CPArray" ∨ className = "CPDictionary") :
    SpentAs wrapped site.frame (.node type · .nil)
      (Message.allocInit walk t className initializer first more withCount site)
      fun vs => vs.assigned.length = 1 := by
  unfold Message.allocInit
  refine SpentAs.before hscope (bare_quiets Quiets.get) fun s => ?_
  exact SpentAs.taking hscope (by rw [htype]; rfl) fun level => allocated_assigns hw hclass

/-! ### Messages -/

theorem writeArguments_plain (site : Site) :
    Spent wrapped site.frame (args.forM (Message.writeArgument walk site)) Plain := by
  refine Spent.forM ⟨rfl, rfl⟩ (fun _ _ hxs hys => by simp [Plain, hxs, hys]) (fun v => ?_) args
  have hcomma : Spent wrapped site.frame (text site.buffer ", ") Bare :=
    bare_text (Visits.assignedTemp?_of_start (by simp [Visits.isOtherStart]))
  refine plain_seq (plain hcomma) fun _ => (hw .plain v site (.inl rfl)).mono ?_
  rintro vs ⟨_, _, _, rfl⟩
  exact ⟨rfl, rfl⟩

omit hw in
theorem isScope_message : Visits.isScope wrapped "objj_MessageSendExpression" = false := by
  simp [Visits.isScope, Visits.isFunction]

omit hw in
theorem callText_silent (args : Nat) :
    Spent wrapped frame (text buffer (Message.callText isInline selector args)) Silent := by
  cases isInline with
  | true => exact silent_end rfl (by decide)
  | false =>
    exact silent_start (by simp [Message.callText, String.toList_append, Visits.isOtherStart])

theorem endCall_plain (site : Site) : Spent wrapped site.frame
    (Message.endCall walk selector args site) Plain := by
  refine plain_seq (plain (bare_end rfl (by decide))) fun _ => ?_
  exact plain_seq (writeArguments_plain hw args site) fun _ => plain (bare_last rfl (by decide))

theorem stored_assigns
    (isInline : Bool) (scratch : Nat) (site : Site) (level : Int) :
    Spent wrapped site.frame
      (Message.stored walk receiver first selector args isInline scratch site (tempName level))
      (Assigns level) := by
  refine silent_assigns (silent_walk hw receiver { site with buffer := scratch }) fun _ => ?_
  refine assigns_seq (assigns_text (.inl rfl) rfl) fun _ =>
    silent_seq (silent_splice _ _) fun _ => ?_
  refine silent_seq (silent_start ?_) fun _ => ?_
  · simp [toString, String.toList_append, Visits.isOtherStart]
  have htemp : Visits.isOtherStart (tempName level).toList = true := by
    simp [tempName, String.toList_append, Visits.isOtherStart]
  refine silent_seq (silent_start htemp) fun _ => ?_
  refine silent_seq (silent (bare_quiets Quiets.get)) fun s => ?_
  refine silent_seq (callText_silent _ _ _) fun _ =>
    silent_seq (silent_last rfl (by decide)) fun _ => ?_
  exact silent_seq (silent_start htemp) fun _ => (endCall_plain hw _ _ site).mono fun _ h => h.1

theorem callName_silent (scratch : Nat) (site : Site) : Spent wrapped site.frame
    (Message.callName walk selector args isInline scratch site) Silent := by
  have hopen : Spent wrapped site.frame (text site.buffer "(") Silent :=
    silent_last rfl (by decide)
  have hcall : Spent wrapped site.frame (Message.callName walk selector args false scratch site)
      Silent := by
    refine silent_seq (silent_splice _ _) fun _ =>
      silent_seq (silent (bare_quiets Quiets.get)) fun s => ?_
    refine silent_seq (callText_silent _ _ _) fun _ => silent_seq hopen fun _ => ?_
    exact silent_seq (silent_splice _ _) fun _ => (endCall_plain hw _ _ site).mono fun _ h => h.1
  cases isInline with
  | true => exact silent_seq hopen fun _ => hcall
  | false => exact hcall

/-- The receiver is the first node that a message to a plain variable compiles. -/
theorem sendToName_first {receiver : Value} (hreceiver : receiver.isNode .identifier = true)
    (name : Key) (selector : String) (args : List Value) (isInline : Bool) (scratch : Nat)
    (site : Site) :
    Spent wrapped site.frame
      (Message.sendToName walk receiver name selector args isInline scratch site)
      fun vs => vs.assigned = [] ∧ vs.firstType? = some "Identifier" := by
  have hwalk : Spent wrapped site.frame (walk .plain receiver { site with buffer := scratch })
      fun vs => vs.assigned = [] ∧ vs.firstType? = some "Identifier" := by
    refine (hw .plain receiver { site with buffer := scratch } (.inl rfl)).mono ?_
    rintro vs ⟨t, inner, rfl, rfl⟩
    have htype : t.type = .identifier := by simpa [Value.isNode] using hreceiver
    exact ⟨rfl, by rw [Visits.firstType?, layoutType, htype]; rfl⟩
  have hcall := callName_silent hw isInline selector args scratch site
  refine bare_first (bare_quiets Quiets.get) fun s => first_seq hwalk fun _ => ?_
  cases Message.mayBeNil s site.frame name with
  | true =>
    refine silent_seq (silent_last rfl (by decide)) fun _ =>
      silent_seq (silent_splice _ _) fun _ => ?_
    refine silent_seq (silent_start (by simp [Visits.isOtherStart])) fun _ => ?_
    exact silent_seq hcall fun _ => silent_last rfl (by decide)
  | false => exact hcall

omit hw in
theorem writeSuper_bare (selector suffix : String) (site : Site) :
    Spent wrapped site.frame (Message.writeSuper location selector suffix site) Bare := by
  refine bare_seq (bare_quiets Quiets.get) fun s => ?_
  have hfatal {cause : Cause} (h : cause.isLimit = false) :
      Spent wrapped site.frame (fatalAt location cause : Gen Unit) Bare :=
    bare_quiets (quiets_checks.fatalAt location h)
  have hcall (shown : String) : Spent wrapped site.frame (Message.superCall location selector suffix
      shown s.settings.inlineMsgSend site) Bare := by
    unfold Message.superCall
    split
    · exact bare_seq (bare_end rfl (by decide)) fun _ => bare_last rfl (by decide)
    · refine bare_seq (bare_text (Visits.assignedTemp?_of_start ?_)) fun _ =>
        bare_end rfl (by decide)
      simp [String.toList_append, Visits.isOtherStart]
  split
  · exact hfatal rfl
  split
  · exact hfatal rfl
  dsimp only
  split
  · exact bare_seq (hfatal rfl) fun _ => hcall _
  · exact hcall _

omit hw in
theorem plainName?_quiets (frame : FrameId) (receiver : Value) :
    Quiets (Message.plainName? frame receiver) := by
  unfold Message.plainName?
  split
  · exact quiets_checks.pure _
  · refine quiets_checks.bind (quiets_checks.part _ _) fun name => ?_
    refine quiets_checks.bind (quiets_checks.key _) fun key => ?_
    refine quiets_checks.bind (Quiets.modifyFrame (fun _ _ => rfl) fun _ _ _ h => h) fun _ => ?_
    exact quiets_checks.bind Quiets.get fun s => quiets_checks.pure _

theorem sendToSuper_inside (site : Site) :
    SpentAs wrapped site.frame (.node "objj_MessageSendExpression" · .nil)
      (Message.sendToSuper walk location selector args site) fun vs => vs.assigned.length = 0 := by
  have h : Spent wrapped site.frame
      (Message.sendToSuper walk location selector args site) Plain := by
    exact plain_seq (plain (writeSuper_bare _ _ _ _)) fun _ => endCall_plain hw _ _ _
  refine (Spent.inside h isScope_message fun vs hvs => ⟨?_, ?_⟩).mono fun vs hvs =>
    congrArg List.length hvs.1
  · simp [Visits.ownTemps, hvs.1]
  · exact ⟨fun h => absurd h (by simp [Visits.isLiteral]), fun _ => .inr ⟨hvs.1, by simp [hvs.2]⟩⟩

theorem sendToName_inside {receiver : Value} (hreceiver : receiver.isNode .identifier = true)
    (name : Key) (scratch : Nat) (site : Site) :
    SpentAs wrapped site.frame (.node "objj_MessageSendExpression" · .nil)
      (Message.sendToName walk receiver name selector args isInline scratch site)
      fun vs => vs.assigned.length = 0 := by
  refine (Spent.inside (sendToName_first hw hreceiver _ _ _ _ _ _) isScope_message fun vs hvs =>
    ⟨?_, ?_⟩).mono fun vs hvs => congrArg List.length hvs.1
  · simp [Visits.ownTemps, hvs.1]
  · exact ⟨fun h => absurd h (by simp [Visits.isLiteral]), fun _ => .inr ⟨hvs.1, fun _ => hvs.2⟩⟩

theorem stored_inside (scratch : Nat) (site : Site) :
    SpentAs wrapped site.frame (.node "objj_MessageSendExpression" · .nil) (do
      Message.storedOnce walk receiver first selector args isInline scratch site
      text site.buffer ")") fun vs => vs.assigned.length = 1 :=
  .after isScope_message (.taking isScope_message rfl fun level =>
    stored_assigns hw receiver first selector args isInline scratch site level) fun _ =>
      bare_last rfl (by decide)

end

theorem Message.takesTemp_congr {s t : GenState} (hframes : t.frames = s.frames)
    (hsymbols : t.symbols = s.symbols) (receiver : Value) :
    takesTemp t frame receiver = takesTemp s frame receiver := by
  have hivar : isIvar t frame = isIvar s frame := by
    funext name
    rw [isIvar, isIvar, hframes, hsymbols]
  rw [takesTemp, takesTemp, hivar]

/-- Steps that write no more than bare pieces and change neither frames nor symbols. -/
structure Idle (wrapped : Bool) (frame : FrameId) {α : Type} (m : Gen α) : Prop where
  bare : Spent wrapped frame m Bare
  keeps : ∀ s, wp m (fun _ t => t.frames = s.frames ∧ t.symbols = s.symbols) (fun _ _ => True) s

theorem idle_sequences (wrapped : Bool) (frame : FrameId) : Sequences (@Idle wrapped frame) where
  pure _ := ⟨bare_quiets (quiets_checks.pure _), fun _ => ⟨rfl, rfl⟩⟩
  incomplete := ⟨bare_quiets quiets_checks.incomplete, fun _ => trivial⟩
  bind hm hk := ⟨bare_seq hm.bare fun a => (hk a).bare, fun s =>
    (hm.keeps s).bind fun a t ht => ((hk a).keeps t).imp fun _ _ hu =>
      ⟨hu.1.trans ht.1, hu.2.trans ht.2⟩⟩

theorem idle_comment (buffer : Nat) (span : Span) :
    Idle wrapped frame (sourceComment buffer span) := by
  refine ⟨bare_comment buffer span, fun s => ?_⟩
  have hshown : wp (sourceText span) (fun _ t => t = s) (fun _ _ => True) s := by
    unfold sourceText
    simp only [wp_bind, wp_get]
    split
    · rfl
    · split <;> rfl
  refine hshown.bind fun shown t ht => ?_
  subst ht
  cases shown with
  | none => exact ⟨rfl, rfl⟩
  | some shown => exact wp_instr _ ⟨rfl, rfl⟩ trivial

/-- Steps of a message from a state on, and from those with the same frames and symbols: they take a
temp or not. -/
def TakesFrom (wrapped : Bool) (frame : FrameId) (takes : Bool) (s : GenState) (m : Gen Unit) :
    Prop :=
  ∀ x : GenState, x.frames = s.frames → x.symbols = s.symbols → frame < x.frames.store.size →
    wp m (fun _ t => Spending wrapped frame (.node "objj_MessageSendExpression" · .nil)
      (fun vs => vs.assigned.length = takes.toNat) x t) (fun _ _ => True) x

theorem TakesFrom.before {m : Gen α} {k : α → Gen Unit} {takes : Bool} {s : GenState}
    (hm : Idle wrapped frame m) (hk : ∀ a, TakesFrom wrapped frame takes s (k a)) :
    TakesFrom wrapped frame takes s (m >>= k) := by
  intro x hframes hsymbols hframe
  have hboth := ((hm.bare x hframe).and (hm.keeps x)).mono (fun _ _ h => h) fun _ _ _ => trivial
  refine hboth.bind fun a t ⟨ht, hframes', hsymbols'⟩ => ?_
  refine (hk a t (hframes'.trans hframes) (hsymbols'.trans hsymbols) (hframes' ▸ hframe)).imp
    fun _ u hu => ?_
  exact ht.before isScope_message hu hframe

theorem TakesFrom.beforeIf {c : Prop} [Decidable c] {m : Gen Unit} {k : Unit → Gen Unit}
    {takes : Bool} {s : GenState} (hm : Idle wrapped frame m)
    (hk : TakesFrom wrapped frame takes s (k ())) :
    TakesFrom wrapped frame takes s (if c then m >>= k else k ()) := by
  split
  · exact .before hm fun _ => hk
  · exact hk

section

variable (hw : VisitsNodes wrapped walk) (receiver first : Value) (selector : String)
  (args : List Value)

include hw

theorem sendToReceiver_takes (site : Site) (s : GenState)
    (hsuper : receiver.isNode .superReceiver = false) :
    TakesFrom wrapped site.frame (Message.takesTemp s site.frame receiver) s
      (Message.sendToReceiver walk receiver first selector args site) := by
  intro x hframes hsymbols hframe
  have hnew : Spent wrapped site.frame newBuffer Bare :=
    bare_quiets fun _ => ⟨rfl, rfl, fun h => ⟨h, rfl⟩, fun _ => rfl⟩
  have hbare : Spent wrapped site.frame (Message.plainName? site.frame receiver)
      Bare := bare_quiets (plainName?_quiets _ _)
  have hname := ((hbare x hframe).and (Message.wp_plainName? x site.frame hsuper)).mono
    (fun _ _ h => h) fun _ _ _ => trivial
  refine (wp_bind ..).2 (hname.bind fun name t ⟨ht, htakes⟩ => ?_)
  have hsize := Nat.lt_of_lt_of_le hframe ht.1.size
  rw [← Message.takesTemp_congr hframes hsymbols, ← htakes]
  cases name with
  | none =>
    refine (SpentAs.before isScope_message hnew (fun scratch =>
      stored_inside hw _ receiver first selector args scratch site) t hsize).imp fun _ u hu => ?_
    exact ht.before isScope_message hu hframe
  | some name =>
    have hreceiver : receiver.isNode .identifier = true := by
      cases hnot : receiver.isNode .identifier with
      | true => rfl
      | false => simp [Message.takesTemp, hsuper, hnot] at htakes
    refine (SpentAs.before isScope_message hnew (fun scratch =>
      sendToName_inside hw _ selector args hreceiver name scratch site) t hsize).imp
        fun _ u hu => ?_
    exact ht.before isScope_message hu hframe

theorem sendTo_takes (site : Site) (s : GenState) :
    TakesFrom wrapped site.frame (Message.takesTemp s site.frame receiver) s
      (Message.sendTo walk receiver first selector args site) := by
  unfold Message.sendTo
  cases hsuper : receiver.isNode .superReceiver with
  | true =>
    have hnone : Message.takesTemp s site.frame receiver = false := by
      simp [Message.takesTemp, hsuper]
    rw [hnone]
    exact fun x _ _ => sendToSuper_inside hw _ _ _ _ x
  | false => exact sendToReceiver_takes hw _ _ _ _ _ s hsuper

/-- Whether a message takes a temp depends on its receiver. -/
theorem send_takes (s : GenState) (hframe : site.frame < s.frames.store.size) :
    wp (Message.send walk t site) (fun _ u => ∃ receiver, t.get? "receiver" = some receiver ∧
      Spending wrapped site.frame (.node "objj_MessageSendExpression" · .nil)
        (fun vs => vs.assigned.length = (Message.takesTemp s site.frame receiver).toNat) s u)
      (fun _ _ => True) s := by
  have hreads := idle_sequences wrapped site.frame
  refine (wp_bind ..).2 (wp_ofOption (fun receiver hreceiver => ?_) fun _ => trivial)
  suffices h : TakesFrom wrapped site.frame (Message.takesTemp s site.frame receiver) s _ from
    (h s rfl rfl hframe).imp fun _ u hu => ⟨receiver, hreceiver, hu⟩
  refine .before (hreads.field _ _) fun parts => .before (hreads.firstPart _) fun first => ?_
  dsimp only
  refine .beforeIf (idle_comment _ _) ?_
  unfold Message.sendParts
  refine .before (hreads.fieldItems _ _) fun args => .before (hreads.selector _ _ _) fun _ => ?_
  refine .before (hreads.field _ _) fun _ => .before (hreads.itemsIfTrue _) fun varArgs => ?_
  exact sendTo_takes hw receiver first _ (args ++ varArgs) { site with inMessage := true } s

end

end ObjectiveJ
