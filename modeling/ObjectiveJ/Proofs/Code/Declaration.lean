import ObjectiveJ.Proofs.Code.Ivar

/-!
# What classes and protocols write

A class or protocol writes its code where it stands and its methods into two buffers, which it puts
at its end. A declaration that is left out because its name is taken is an error, so a program
without errors has the code of all its declarations.
-/

namespace ObjectiveJ

open Gen Text

variable {names : List String} {name : Value} {vs : List Value} {comment : String} {frame : FrameId}

variable {A : Account} {p : Spot} {o : Bool} {w : List Char} {n N : Multiset Tree}
  {v : Value} {t : Tree} {walk : Walker} {site : Site} {s : GenState} {α β : Type}

/-! ### Names that are taken -/

/-- A step that has a bad result only if there is an error. -/
def Blames (A : Account) (m : Gen α) (bad : α → Prop) : Prop := ∀ s : GenState, s.Sane A →
  wp m (fun a t => bad a → t.diagnostics.hasErrors = true) (fun _ _ => True) s

namespace Blames

variable {identifier : Value}

variable {m : Gen α} {k : α → Gen β} {bad : β → Prop}

theorem pure {b : β} (h : ¬bad b) : Blames A (pure b) bad := fun _ _ hb => absurd hb h

theorem after (hm : Steady A m) (hk : ∀ a, Blames A (k a) bad) :
    Blames A (m >>= k) bad := fun s hs =>
  (hm s hs).bind fun a t ht => hk a t ht.1

theorem error (about : Value) (message : String) (b : β) :
    Blames A (Gen.error about message >>= fun _ => Pure.pure b) bad := fun _ hs =>
  (wp_error hs about message).bind fun _ _ ht _ => ht.2

theorem conflict (previous : Check.Previous) {bad : Bool → Prop} :
    Blames A (Check.conflict t identifier name previous) bad := by
  intro s hs
  unfold Check.conflict
  refine (wp_error hs _ _).bind fun _ u hu => ?_
  split
  · refine (wp_note hu.1.1 _ _).bind fun _ _ hv => ?_
    exact fun _ => hv.2.trans hu.2
  · exact fun _ => hu.2

theorem isUniqueName {key : Key}
    (htype : t.type = .classDeclaration ∨ t.type = .protocolDeclaration) :
    Blames A (Check.isUniqueName s frame t identifier name key) (· = false) := by
  have hglobal : t.type ≠ .globalStatement := by rcases htype with h | h <;> simp [h]
  have htypedef : t.type ≠ .typeDefStatement := by rcases htype with h | h <;> simp [h]
  unfold Check.isUniqueName
  split
  · split
    · exact .after (steady_judges.fatalAt _ _ rfl) fun _ => conflict _
    · exact conflict _
  split
  · rw [if_neg hglobal]
    exact conflict _
  split
  · rw [if_neg htypedef]
    exact conflict _
  split
  · exact conflict _
  · exact pure nofun

theorem isUniqueClass {known : Option ClassDef} :
    Blames A (Check.isUniqueClass t name known) (· = some false) := by
  refine .after (steady_judges.field _ _) fun category => ?_
  split
  · split
    · exact error _ _ _
    · refine .after (steady_judges.part _ _) fun c s hs => ?_
      rw [wp_bind, wp_get]
      split
      · exact after (steady_judges.fatalAt _ _ rfl) (fun _ => pure nofun) s hs
      · exact pure nofun s hs
  · cases known with
    | none => exact pure nofun
    | some known =>
      have hend : Blames A (Check.warnUnnecessary t name known >>= fun _ => Pure.pure (some true))
          (· = some false) :=
        .after (steady_judges.cautioned fun hA => hA.warnUnnecessary ..) fun _ => pure nofun
      dsimp only
      split
      · exact .after (steady_judges.fatalAt _ _ rfl) fun _ => hend
      · exact hend

theorem isUnique (htype : t.type = .classDeclaration ∨ t.type = .protocolDeclaration) :
    Blames A (Check.isUnique frame t identifier) (· = false) := by
  refine .after (steady_judges.part _ _) fun name => .after (steady_judges.key _) fun key s hs => ?_
  rw [wp_bind, wp_get]
  dsimp only
  split
  · rw [wp_bind]
    have hclass := (steady_judges.isUniqueClass t name (s.symbols.lookupClass key) s hs).and
      (isUniqueClass s hs)
    refine hclass.mono (fun answer u hu => ?_) fun _ _ _ => trivial
    cases answer with
    | some answer => exact fun hno => hu.2 (by rw [hno])
    | none => exact isUniqueName htype u hu.1.1
  · rename_i hclass
    have hstatement : t.type ≠ .classStatement := by rcases htype with h | h <;> simp [h]
    split
    · rw [if_neg hstatement]
      exact conflict _ s hs
    · exact isUniqueName htype s hs

end Blames

/-! ### Definitions -/

namespace Then

variable {H : History A p.buffer} {Q : GenState → Prop}

theorem newDefinition {d : Definition} {k : Nat → Gen β}
    (hd : A.clear → ∀ c, d = .classDef c → c.Clear)
    (hk : ∀ id, (A.clear → A.known ≤ id) → Then A p H w n (k id) Q) :
    Then A p H w n ((modifyGet fun s =>
      let (id, symbols) := s.symbols.new d
      (id, { s with symbols }) : Gen Nat) >>= k) Q :=
  .rest_and (P := fun id => A.clear → A.known ≤ id) ⟨.newSymbol hd,
    (quiets_records.newSymbol d).calms⟩ (fun _ hs hclear => (hs.symbols hclear).size) hk

theorem newClass {k : ClassId → Gen β} (hname : A.clear → name.Clear)
    (hk : ∀ id, (A.clear → A.known ≤ id) → Then A p H w n (k id) Q) :
    Then A p H w n (Declaration.newClass t name >>= k) Q := by
  have hnew (c : ClassDef) (hc : c.name = name) (hivars : c.ivars.entries = []) (hclear : A.clear)
      (d : ClassDef) (hd : Definition.classDef c = .classDef d) : d.Clear := by
    cases hd
    exact ⟨hc ▸ hname hclear, by rw [hivars]; exact List.forall_mem_nil _⟩
  unfold Declaration.newClass
  rw [bind_assoc]
  refine .ofOption fun category _ => ?_
  dsimp only
  split
  · simp only [bind_assoc, pure_bind]
    exact .rest (rests_judges.superclass? t name) fun up => .newDefinition (hnew _ rfl rfl) hk
  · simp only [bind_assoc, pure_bind]
    refine .look fun s _ _ => .rest (rests_judges.key name) fun key => .ofOption fun base _ => ?_
    exact .ofOption fun shown _ => .newDefinition (hnew _ rfl rfl) hk

end Then

namespace Rests

theorem newProtocol {incorporated : List ProtocolId} :
    Rests A (Declaration.newProtocol t name incorporated) := by
  refine ⟨?_, (quiets_records.newProtocol t name incorporated).calms⟩
  refine .bind (.newSymbol fun _ _ h => nomatch h) fun id => ?_
  exact .bind (.register fun _ => Symbols.registerProtocol_store) fun _ => steady_judges.pure _

theorem registerClass (id : ClassId) : Rests A (Gen.register (·.registerClass id)) :=
  ⟨.register fun _ => Symbols.registerClass_store,
    (quiets_records.register fun _ _ => Symbols.not_isLimit_registerClass).calms⟩

theorem addProtocols (id : ClassId) (vs : List Value) : Rests A (Declaration.addProtocols id vs) :=
  rests_judges.addProtocols (fun _ _ _ => .modifySymbols fun _ _ hx => hx.modifyClass fun _ hc =>
    ⟨hc.name, hc.ivars⟩) vs

end Rests

/-! ### Texts -/

namespace Gives

theorem protocolNames (hvs : ∀ v ∈ vs, Fits A v) :
    Gives A (Declaration.protocolNames vs) fun names => ∀ name ∈ names, Nests name :=
  .mapM fun v hv => .ofOption fun _ hname => .option fun _ hshown hclear =>
    (Value.clear_text? (((hvs v hv).part hname).clear hclear) hshown).nests

theorem shownName? {name : String} (ht : Fits A (.tree t)) :
    Gives A (Declaration.shownName? t name) fun shown => ∀ x ∈ shown, Nests x := by
  refine .ofOption fun identifier hidentifier => ?_
  split
  · exact .pure fun _ => nofun
  · refine .ofOption fun x hx => .pure fun hclear y hy => ?_
    cases hy
    exact Value.nests_display _ (((ht.field hidentifier).part hx).clear hclear)

end Gives

theorem Text.nests_conforms (h : ∀ name ∈ names, Nests name) :
    Nests (let list := ", ".intercalate names
      if names.isEmpty then "" else s!" <{list}>") := by
  dsimp only
  split
  · exact .of_residue rfl
  · exact (Nests.intercalate nests_comma h).between (.of_residue rfl)

/-- The comment of a class that has a superclass, or has none, and conforms to protocols. -/
def Declaration.classComment (name : String) (up : Option String) (names : List String) : String :=
  let inherits := match up with
    | some up => " : " ++ up
    | none => ""
  let list := ", ".intercalate names
  let conforms := if names.isEmpty then "" else s!" <{list}>"
  s!"@implementation {name}{inherits}{conforms}"

theorem Declaration.nests_classComment {name : String} {up : Option String} (hname : Nests name)
    (hup : ∀ x ∈ up, Nests x) (hnames : ∀ x ∈ names, Nests x) :
    Nests (classComment name up names) := by
  refine Nests.append (Nests.append (Nests.append (.of_residue rfl) hname) ?_)
    (nests_conforms hnames)
  cases up with
  | some up => exact Nests.append (.of_residue rfl) (hup up rfl)
  | none => exact .of_residue rfl

theorem Declaration.nests_categoryComment {name category : String} (hname : Nests name)
    (hcategory : Nests category) : Nests s!"@implementation {name} ({category})" :=
  .trans (((hname.around).texts hcategory).texts (.refl _))
    (.of_residue rfl)

section Class

variable {name : String} {names : List String} (ht : Fits A (.tree t))
  (hname : A.clear → Nests name)

include ht hname

theorem Gives.startClass (buffer : Nat) (hnames : A.clear → ∀ x ∈ names, Nests x) :
    Gives A (Declaration.startClass t name names buffer) Nests := by
  refine .bind (.shownName? ht) fun category hcategory => ?_
  cases category with
  | some category =>
    exact .skip fun _ => .pure fun hclear =>
      Declaration.nests_categoryComment (hname hclear) (hcategory hclear category rfl)
  | none =>
    refine .bind (.shownName? ht) fun up hup => .skip fun _ => .pure fun hclear => ?_
    exact Declaration.nests_classComment (hname hclear) (hup hclear) (hnames hclear)

theorem Puts.startClass (hnames : A.clear → ∀ x ∈ names, Nests x) :
    Puts A p (Declaration.startClass t name names p.buffer) [] 0 := by
  refine .start <| .rest_gives (rests_judges.shownName? ..) (.shownName? ht)
    fun category hcategory => ?_
  cases category with
  | some category =>
    refine .seq (continuedAt (w := []) _ fun hclear => ?_) <| .done _ rfl (by simp)
    have hcomment := Declaration.nests_categoryComment (hname hclear)
      (hcategory hclear category rfl)
    exact .trans ((((hcomment.around).texts (hname hclear)).texts
      (.refl _)).texts (.refl _) |>.texts (hname hclear).around)
      (.of_residue rfl)
  | none =>
    refine .rest_gives (rests_judges.shownName? ..) (.shownName? ht) fun up hup => ?_
    refine .seq (continuedAt (w := []) _ fun hclear => ?_) <| .done _ rfl (by simp)
    have hcomment := Declaration.nests_classComment (hname hclear) (hup hclear) (hnames hclear)
    have hsuper : Nests (up.getD "Nil") := by
      cases up with
      | some up => exact hup hclear up rfl
      | none => exact .of_residue rfl
    exact .trans (((((hcomment.around).texts hsuper).texts (.refl _)).texts
      (hname hclear)).texts (.refl _)) (.of_residue rfl)

end Class

theorem Puts.writeProtocols (isFirst : Bool) (hnames : A.clear → ∀ x ∈ names, Nests x) :
    Puts A p (Declaration.writeProtocols p.buffer isFirst names) [] 0 := by
  induction names generalizing isFirst with
  | nil => exact .pure _
  | cons name rest ih =>
    refine .start <| .seq (template (w := []) fun hclear => ?_) <|
      .last (ih false fun hclear x hx => hnames hclear x (.tail _ hx)) rfl (by simp)
    refine Nests.append (Declaration.nests_protocolLookup ?_ (.of_residue rfl)
      (hnames hclear name (.head _))) (.of_residue rfl)
    cases isFirst <;> exact .of_residue rfl

theorem Text.nests_super {get shown : String} (hget : Nests get) (hshown : Nests shown)
    (hasSuper : Bool) :
    Nests (if hasSuper then Value.str s!"{get}(\"{shown}\").super_class" else .null).display := by
  cases hasSuper with
  | true =>
    rw [if_pos rfl, Value.str, Value.display, Json.display]
    exact .trans (((hget.texts (.refl _)).texts hshown).texts (.refl _)) (.of_residue rfl)
  | false =>
    rw [if_neg Bool.false_ne_true]
    exact .of_residue rfl

/-! ### Methods at the end -/

namespace Pens

variable {rs : List (Nat × Code)} {m : MethodBuffer} {c : Code}

theorem addMethods {title target : String} (hm : (m.buffer, c) ∈ rs)
    (hempty : m.isEmpty = true → c = .nil) (htitle : Nests title) (htarget : Nests target) :
    Pens A p rs (Declaration.addMethods title target m p.buffer) [] (c.tally A) := by
  unfold Declaration.addMethods
  split
  · rename_i hnone
    obtain rfl := hempty hnone
    exact pure ()
  · refine ((template (w := ['(', '[']) fun _ => ?_).bind fun _ => (splice hm).bind fun _ =>
      template fun _ => .refl _).conv (fun _ => ?_) (by simp)
    · exact .trans (((htitle.around).texts htarget).texts (.refl _))
        (.of_residue rfl)
    · exact .of_residue rfl

theorem describe (isInstance : Bool) (hm : (m.buffer, c) ∈ rs) :
    Pens A p rs (Declaration.describe m isInstance p.buffer) [] (c.tally A) := by
  refine ((template fun _ => .refl _).bind fun _ => (splice hm).bind fun _ => template fun _ =>
    .refl _).conv (fun _ => ?_) (by simp)
  cases isInstance <;> exact .of_residue rfl

theorem addDescriptions (isInstance startsLine : Bool) (hm : (m.buffer, c) ∈ rs)
    (hempty : m.isEmpty = true → c = .nil) :
    Pens A p rs (Declaration.addDescriptions m isInstance startsLine p.buffer) [] (c.tally A) := by
  have hcode := describe (A := A) (p := p) isInstance hm
  unfold Declaration.addDescriptions
  split
  · rename_i hnone
    obtain rfl := hempty hnone
    exact pure ()
  dsimp only
  split
  · exact ((text fun _ => .refl _).bind fun _ => hcode).conv (fun _ => .of_residue rfl) (by simp)
  · exact hcode

theorem endComment (hcomment : A.clear → Nests comment) :
    Pens A p rs (Gen.template p.buffer ("\n// @end: " ++ comment)) [] 0 :=
  template fun hclear => Nests.append (.of_residue rfl) (hcomment hclear)

end Pens

namespace Then

variable (hs : s.Ready A) {hb' : p.buffer < s.opened.buffers}

theorem endClass {id : ClassId} {protocols : Value} (hb : p.buffer < s.buffers)
    (hcomment : A.clear → Nests comment) (hw : residue w = []) (hN : A.once → n = N) :
    Then A p (.since hs.opened hb') w n (Declaration.endClass id protocols comment p.buffer)
      fun u =>
      u.Ready A ∧ Adds A p.buffer [] N s u := by
  refine collect hs hb (fun both => do
    Declaration.addMethods "Instance" "$the_class" both.instanceMethods p.buffer
    Declaration.addMethods "Class" "$the_class.isa" both.classMethods p.buffer
    Gen.template p.buffer ("\n// @end: " ++ comment)
    if protocols.truthy then Check.conformance id protocols) (fun both => ?_)
      (fun both i c hi hc => ?_)
    (fun _ => .of_residue hw) hN
  · simp only [bind_assoc]
    cases protocols.truthy <;> rfl
  · refine ((Pens.addMethods (c := i) (by simp) hi (.of_residue rfl) (.of_residue rfl)).bind
      fun _ => (Pens.addMethods (c := c) (by simp) hc (.of_residue rfl) (.of_residue rfl)).bind
        fun _ => (Pens.endComment hcomment).bind fun _ => (?_ : Pens A p _ _ [] 0)).conv
          (fun _ => .refl _) (by simp)
    split
    · exact .rest (rests_judges.warned fun hA => hA.toCautions.conformance ..)
    · exact .pure ()

theorem endProtocol (hb : p.buffer < s.buffers) (hcomment : A.clear → Nests comment)
    (hw : residue w = []) (hN : A.once → n = N) :
    Then A p (.since hs.opened hb') w n (Declaration.endProtocol comment p.buffer) fun u =>
      u.Ready A ∧ Adds A p.buffer [] N s u := by
  refine collect hs hb (fun both => do
    Declaration.addDescriptions both.instanceMethods true false p.buffer
    Declaration.addDescriptions both.classMethods false (!both.instanceMethods.isEmpty) p.buffer
    Gen.template p.buffer ("\n// @end: " ++ comment)) (fun both => ?_) (fun both i c hi hc => ?_)
    (fun _ => .of_residue hw) hN
  · simp only [bind_assoc]
  · exact ((Pens.addDescriptions (c := i) true false (by simp) hi).bind fun _ =>
      (Pens.addDescriptions (c := c) false _ (by simp) hc).bind fun _ =>
        Pens.endComment hcomment).conv (fun _ => .refl _) (by simp)

end Then

/-! ### Protocols -/

theorem Puts.writeIncorporated (isFirst : Bool) (hname : A.clear → name.Clear) :
    Puts A p (Declaration.writeIncorporated p.buffer isFirst name) [] 0 := by
  have hcode {declare : String} (hdeclare : Nests declare) : Puts A p (Gen.template p.buffer
      (Declaration.protocolLookup declare "$the_incorporated_protocol" name.display ++
        "protocol_addProtocol($the_protocol, $the_incorporated_protocol);\n")) [] 0 :=
    template fun hclear => Nests.append (Declaration.nests_protocolLookup hdeclare (.of_residue rfl)
      (Value.nests_display _ (hname hclear))) (.of_residue rfl)
  cases isFirst with
  | true => exact hcode (.of_residue rfl)
  | false => exact .start <| .seq verbatim <| .last (hcode (.of_residue rfl)) rfl (by simp)

theorem Puts.incorporate (isFirst : Bool) (hvs : ∀ v ∈ vs, Fits A v) :
    Puts A p (Declaration.incorporate p.buffer isFirst vs) [] 0 := by
  induction vs generalizing isFirst with
  | nil => exact .pure _
  | cons v rest ih =>
    have ih (isFirst : Bool) := ih isFirst fun x hx => hvs x (.tail _ hx)
    refine .start <| .ofOption fun name hname => .look fun s _ _ =>
      .rest (rests_judges.key name) fun key => ?_
    split
    · refine .seq (writeIncorporated _ fun hclear => ((hvs v (.head _)).part hname).clear hclear) ?_
      exact .bind (ih false) fun _ => .done _ rfl (by simp)
    · exact .rest (rests_judges.unknownProtocol name) fun _ =>
        .rest (rests_judges.error ..) fun _ =>
        .only (ih isFirst)

theorem Gives.incorporate (buffer : Nat) (isFirst : Bool) (hvs : ∀ v ∈ vs, Fits A v) :
    Gives A (Declaration.incorporate buffer isFirst vs) fun found => ∀ e ∈ found, e.1.Clear := by
  induction vs generalizing isFirst with
  | nil => exact .pure fun _ => List.forall_mem_nil _
  | cons v rest ih =>
    have ih (isFirst : Bool) := ih isFirst fun x hx => hvs x (.tail _ hx)
    refine .ofOption fun name hname => .skip fun s => .skip fun key => ?_
    split
    · exact .skip fun _ => .bind (ih false) fun found hfound => .pure fun hclear =>
        List.forall_mem_cons.2 ⟨((hvs v (.head _)).part hname).clear hclear, hfound hclear⟩
    · exact .skip fun _ => .skip fun _ => ih isFirst

theorem Declaration.nests_protocolComment {shown : String} (hshown : Nests shown)
    (hnames : ∀ x ∈ names, Nests x) : Nests (protocolComment shown names) :=
  Nests.append (Nests.append (.of_residue rfl) hshown) (nests_conforms hnames)

theorem Gives.incorporatedNames {found : List (Value × ProtocolId)}
    (hfound : A.clear → ∀ e ∈ found, e.1.Clear) :
    Gives A (found.mapM fun (name, _) => textOf name) fun names => ∀ x ∈ names, Nests x :=
  .mapM fun e he => .option fun _ hshown hclear =>
    (Value.clear_text? (hfound hclear e he) hshown).nests

section Protocol

variable {shown : String} (ht : Fits A (.tree t)) (hshown : A.clear → Nests shown)

include ht hshown

theorem Gives.startProtocol (buffer : Nat) :
    Gives A (Declaration.startProtocol t shown buffer) fun start => Nests start.2 := by
  refine .skip fun scratch => .ofOption fun protocols hprotocols => ?_
  have hrest (vs : List Value) (hvs : ∀ v ∈ vs, Fits A v) :
      Gives A (Declaration.allocateProtocol t shown vs scratch buffer) fun start =>
        Nests start.2 := by
    refine .bind (.incorporate _ _ hvs) fun found hfound =>
      .bind (.incorporatedNames hfound) fun names hnames => ?_
    exact .skip fun _ => .skip fun _ => .pure fun hclear =>
      Declaration.nests_protocolComment (hshown hclear) (hnames hclear)
  unfold itemsIfTrue
  split
  · exact .ofOption fun vs hvs => hrest vs fun _ hx => (ht.field hprotocols).item hvs hx
  · exact hrest [] (List.forall_mem_nil _)

theorem Puts.startProtocol : Puts A p (Declaration.startProtocol t shown p.buffer) [] 0 := by
  refine .newBuffer fun scratch => .ofOption fun protocols hprotocols => ?_
  have hrest (vs : List Value) (hvs : ∀ v ∈ vs, Fits A v) : Splices A p scratch .nil 0 [] 0
      (Declaration.allocateProtocol t shown vs scratch p.buffer) [] 0 := by
    refine .fill_gives (incorporate true hvs) (.incorporate _ _ hvs)
      fun found c i m hfound hsum => ?_
    refine .rest_gives (rests_judges.mapM fun _ => rests_judges.textOf _)
      (.incorporatedNames hfound)
      fun names hnames => .put (continuedAt (w := []) _ fun hclear => ?_) fun _ => .splice <|
        .last (rests_judges.pure _).puts rfl fun honce => by simpa using hsum honce
    have hcomment := Declaration.nests_protocolComment (hshown hclear) (hnames hclear)
    exact .trans (((hcomment.around).texts (hshown hclear)).texts (.refl _))
      (.of_residue rfl)
  unfold itemsIfTrue
  split
  · exact .ofOption fun vs hvs => hrest vs fun _ hx => (ht.field hprotocols).item hvs hx
  · exact hrest [] (List.forall_mem_nil _)

end Protocol

theorem Then.makeOptional {b : Nat} {hs : s.Ready A} {hb : b < s.buffers} {k : Unit → Gen β}
    {Q : GenState → Prop} (hnew : s.frames.face? frame = none)
    (hk : Then A ⟨b, frame, true⟩ (.since hs hb) w n (k ()) Q) :
    Then A ⟨b, frame, false⟩ (.since hs hb) w n
      (modifyFrames (·.modify frame fun f => { f with optionalMethods := true }) >>= k) Q := by
  intro u hu hp hof
  have hface (id : FrameId) :
      (u.frames.modify frame fun f => { f with optionalMethods := true }).face? id =
      if frame = id then (u.frames.face? id).map fun face => { face with optionalMethods := true }
      else u.frames.face? id := by
    rw [Frames.face?, Frames.face?, Frames.frame?_modify]
    split
    · rw [Option.map_map, Option.map_map]
      rfl
    · rfl
  refine (wp_bind ..).2 (hk _
    ⟨⟨⟨hu.sane.numbers.issues, fun q hq => ?_⟩, hu.sane.seen, fun hclear id face hid => ?_,
    hu.sane.symbols, hu.sane.source⟩, hu.isInline, hu.refs.modify fun _ hf =>
    hf, hu.fresh, hu.apart, hu.methods⟩ ⟨hp.buffer, hp.used, ?_⟩ ⟨?_, ?_⟩)
  · exact hu.sane.numbers.waiting q (hq.of_same fun _ => rfl)
  · change (u.frames.modify frame _).face? id = _ at hid
    rw [hface] at hid
    split at hid
    · obtain ⟨old, hold, rfl⟩ := Option.map_eq_some_iff.1 hid
      have hnests := hu.sane.faces hclear id old hold
      exact ⟨hnests.superRef, hnests.superMetaRef, hnests.ofClass⟩
    · exact hu.sane.faces hclear id face hid
  · obtain ⟨face, hold, _⟩ := hp.face
    refine ⟨{ face with optionalMethods := true }, ?_, fun _ => rfl⟩
    change (u.frames.modify frame _).face? frame = _
    rw [hface, if_pos rfl, hold]
    rfl
  · refine ⟨hof.kept.settings, fun id face hid => ?_, hof.kept.errors, hof.kept.buffers,
      hof.kept.methods⟩
    change (u.frames.modify frame _).face? id = _
    rw [hface, if_neg (fun heq => by rw [← heq, hnew] at hid; cases hid)]
    exact hof.kept.faces id face hid
  · obtain ⟨d, hd⟩ := hof.code
    exact ⟨d, hd.contents, hd.faithful, hd.elsewhere, hd.brackets, hd.tally⟩

/-! ### Classes -/

section Walks

variable (hw : Writes A walk)

include hw

theorem Puts.classDeclaration (ht : Fits A (.tree t)) (htype : t.type = .classDeclaration) :
    Puts A (site.spot o) (Declaration.classDeclaration walk t site) []
      (t.tallyOf A false "body") := by
  refine .start <| .ofOption fun identifier hidentifier => .ofOption fun name hname => ?_
  have hname := ((ht.field hidentifier).part hname).clear
  have hshown (hclear : A.clear) := Value.nests_display name (hname hclear)
  refine .require (rests_judges.isUnique ..) (Blames.isUnique (.inl htype)) (fun _ => .refl _) ?_
  refine .only (?_ : Puts A _ _ [] (t.tallyOf A false "body"))
  refine .openMethods fun s hs hb hb' => ?_
  refine .newClass hname fun id hid => .ofOption fun protocols hprotocols => ?_
  refine .itemsIfTrue (ht.field hprotocols) fun conformed hconformed _ =>
    .idle (.addProtocols ..) ?_
  refine .rest_gives (rests_judges.protocolNames _) (.protocolNames hconformed)
    fun names hnames => ?_
  refine .bind_gives (startClass ht hshown hnames) (.startClass ht hshown _ hnames)
    fun comment hcomment => ?_
  refine .seq (writeProtocols true hnames) <| .look fun u _ _ => ?_
  refine .newFrame false rfl rfl (fun hclear => ?_) (fun _ => rfl) fun _ frame _ _ => ?_
  · refine ⟨?_, ?_, fun i hi => ?_⟩
    · exact nests_super (.of_residue rfl) (hshown hclear) _
    · exact nests_super (.of_residue rfl) (hshown hclear) _
    · exact Option.some.inj hi ▸ hid hclear
  refine .ofOption fun ivars hivars => .ofOption fun category _ => ?_
  have hbody (hasAccessors : Bool) :
      Then A ⟨site.buffer, frame, false⟩ (.since hs.opened hb') [] 0 (do
      register (·.registerClass id)
      Declaration.classMembers walk t id ivars protocols comment frame site hasAccessors) fun u =>
        u.Ready A ∧ Adds A site.buffer [] (t.tallyOf A false "body") s u := by
    refine .idle (.registerClass id) <| .fieldItems ht fun vs hitems hvs => ?_
    have hmembers : Puts A (Site.spot { site with frame } false) _ [] _ := inTurn hw hvs
    refine .seq hmembers ?_
    cases hasAccessors with
    | true =>
      refine .seq indent <| .items (ht.field hivars) fun vs _ _ => ?_
      refine .seq (addAccessors hid [] vs) <| .seq dedent ?_
      exact .endClass hs hb hcomment (by decide) fun _ => by simp [Tree.tallyOf_items? hitems]
    | false =>
      exact .endClass hs hb hcomment (by decide) fun _ => by simp [Tree.tallyOf_items? hitems]
  dsimp only
  by_cases hnull : category.isNull = true
  · rw [if_pos hnull]
    refine .seq (template fun _ => .refl _) <|
      .bind (writeIvars (ht.field hivars)) fun hasAccessors => ?_
    exact (hbody hasAccessors).conv (fun _ => .of_residue rfl) fun _ => by simp
  · rw [if_neg hnull]
    exact (hbody false).conv (fun _ => .of_residue rfl) fun _ => by simp

theorem Puts.protocolDeclaration (ht : Fits A (.tree t)) (htype : t.type = .protocolDeclaration) :
    Puts A (site.spot o) (Declaration.protocolDeclaration walk t site) []
      (t.tallyOf A false "required" + t.tallyOf A true "optional") := by
  refine .start <| .ofOption fun identifier hidentifier => .ofOption fun name hname => ?_
  have hshown (hclear : A.clear) :=
    Value.nests_display name (((ht.field hidentifier).part hname).clear hclear)
  refine .require (rests_judges.isUnique ..) (Blames.isUnique (.inr htype)) (fun _ => .refl _) ?_
  refine .only (?_ : Puts A _ _ [] (t.tallyOf A false "required" + t.tallyOf A true "optional"))
  refine .openMethods fun s hs hb hb' => ?_
  refine .bind_gives (startProtocol ht hshown) (.startProtocol ht hshown _) fun start hcomment => ?_
  refine .seq (template fun _ => .refl _) <| .rest .newProtocol fun id => ?_
  refine .newFrame false rfl rfl (fun _ => ?_) (fun _ => rfl) fun u frame hof hnew => ?_
  · have hnull : Nests Value.null.display := .of_residue rfl
    exact ⟨hnull, hnull, nofun⟩
  have hnew : s.opened.frames.face? frame = none := by
    rw [Option.eq_none_iff_forall_ne_some]
    intro face hface
    rw [hof.kept.faces frame face hface] at hnew
    cases hnew
  have hmembers (optional : Bool) {vs : List Value} (hvs : ∀ v ∈ vs, Fits A v) :
      Puts A (Site.spot { site with frame } optional) _ [] _ := inTurn hw hvs
  refine .fieldItems ht fun required hrequired hfits => .seq (hmembers false hfits) ?_
  refine .makeOptional hnew <| .fieldItems ht fun optional hoptional hfits =>
    .seq (hmembers true hfits) ?_
  exact .endProtocol hs hb hcomment (by decide) fun _ => by
    simp [Tree.tallyOf_items? hrequired, Tree.tallyOf_items? hoptional]

end Walks

end ObjectiveJ
