import ObjectiveJ.Generate.Message
import ObjectiveJ.Proofs.Law.Agree

/-!
# Laws for checks

The checks look at the state and change little of it: they report issues and declare globals. A
property of steps that allows such changes, and whatever is put together of steps that have the
property, is a property of every check (`Judges`). Of variables that hide others that has to be
shown separately, since they may take back code. Most checks park no warning and declare nothing,
and then it is enough that the property allows reporting issues (`Asks`).

Some checks only warn, and then it is enough that the property allows warnings and the notes that
explain them (`Warns`, and `Cautions` if no warning is parked). What they look up is looked up
without any change (`Looks`). A property that allows whatever is done to the diagnostics allows all
of that (`Checks`).
-/

namespace ObjectiveJ

open Gen

variable {k : Gen β}

/-- Whether there were more errors than allowed. -/
def Cause.isLimit : Cause → Bool
  | tooManyErrors _ => true
  | _ => false

/-- Whether a walk fails because there were more errors than allowed. -/
def Failure.isLimit : Failure → Bool
  | fatal f => f.cause.isLimit
  | _ => false

/-- A property of steps. -/
abbrev StepProp := ∀ {α : Type}, Gen α → Prop

/-- A property of steps that allows doing them one after another, unless a part is missing. -/
structure Sequences (A : StepProp) : Prop where
  pure : ∀ {α : Type} (a : α), A (pure a : Gen α)
  incomplete : ∀ {α : Type}, A (incomplete : Gen α)
  bind : ∀ {α β : Type} {m : Gen α} {k : α → Gen β}, A m → (∀ a, A (k a)) → A (m >>= k)

/-- A property of steps that allows looking at the diagnostics and at what states that concur have
in common. -/
structure Looks (A : StepProp) : Prop extends Sequences @A where
  look : ∀ {β : Type} {k : GenState → Gen β},
    (∀ s s', s.Concurs s' → s'.diagnostics = s.diagnostics → k s' = k s) →
    (∀ s, A (k s)) → A (get >>= k)

/-- A step that only looks. -/
def Reads {α : Type} (m : Gen α) : Prop := ∀ {A : StepProp}, Looks @A → A m

/-- A property of steps that allows looking at the state and warning at once. -/
structure Cautions (A : StepProp) : Prop extends Looks @A where
  warning : ∀ about message, A (warning about message)
  explained : ∀ about message {r : Gen Value} text, Reads r → A (do
    Gen.warning about message
    note (← r) text)

/-- A step that only looks and warns at once. -/
def Cautioned {α : Type} (m : Gen α) : Prop :=
  ∀ {A : StepProp}, Cautions @A → A m

/-- A property of steps that allows looking at the state and warning. -/
structure Warns (A : StepProp) : Prop extends Cautions @A where
  park : ∀ frame about message name rule (place : Option Value) text, A (do
    let recorded ← park frame about message name rule
    if let some place := place then
      if recorded then note place text)

/-- A step that only looks and warns. -/
def Warned {α : Type} (m : Gen α) : Prop := ∀ {A : StepProp}, Warns @A → A m

/-- A property of steps that allows looking at what states that concur have in common, warning at
once and reporting errors. Only an error that is reported can be one too many. -/
structure Asks (A : StepProp) : Prop extends Sequences @A where
  throw : ∀ {α : Type} (e : Failure), e.isLimit = false → A (throw e : Gen α)
  look : ∀ {β : Type} {k : GenState → Gen β}, (∀ s s', s.Concurs s' → k s' = k s) →
    (∀ s, A (k s)) → A (get >>= k)
  cautioned : ∀ {m : Gen Unit}, Cautioned m → A m
  error : ∀ about message, A (error about message)
  errorNote : ∀ about message earlier text, A (do
    Gen.error about message
    note earlier text)
  fatalAt : ∀ {α : Type} location cause, cause.isLimit = false → A (fatalAt location cause : Gen α)

/-- A property of steps that also allows parking warnings and declaring globals. -/
structure Judges (A : StepProp) : Prop extends Asks @A where
  warned : ∀ {m : Gen Unit}, Warned m → A m
  declare : ∀ frame key v, A (declare frame key v)
  cautioned := fun hm => warned fun hA => hm hA.toCautions

/-- A property of steps that allows whatever is done to the diagnostics. -/
structure Checks (A : StepProp) : Prop extends Looks @A where
  throw : ∀ {α : Type} {e : Failure},
    (e.isLimit = true → ∃ d : Diagnostics, e = .fatal d.tooManyErrors) →
    A (throw e : Gen α)
  diagnose : ∀ d : Diagnostics, A (modify fun s => { s with diagnostics := d } : Gen Unit)
  declare : ∀ frame key v, A (declare frame key v)
  park : ∀ frame issue message name rule,
    A (modifyFrames fun fs => Diagnostics.park fs frame issue message name rule)

namespace Sequences

variable {A : StepProp} (h : Sequences @A) {α β : Type} (v : Value)

include h

theorem seq {m : Gen α} {k : Gen β} (hm : A m) (hk : A k) : A (m >>= fun _ => k) :=
  h.bind hm fun _ => hk

theorem discard {m : Gen α} (hm : A m) : A (discard m) := by
  have heq : (Functor.discard m : Gen PUnit) = m >>= fun _ => Pure.pure PUnit.unit := by
    change Functor.mapConst PUnit.unit m = _
    rw [map_const]
    rfl
  rw [heq]
  exact h.seq hm <| h.pure _

theorem forIn {xs : List α} {b : β} {body : α → β → Gen (ForInStep β)}
    (hbody : ∀ x b, A (body x b)) : A (forIn xs b body) := by
  induction xs generalizing b with
  | nil =>
    rw [List.forIn_nil]
    exact h.pure b
  | cons x rest ih =>
    rw [List.forIn_cons]
    refine h.bind (hbody x b) fun r => ?_
    cases r with
    | done b => exact h.pure b
    | yield b => exact ih

theorem loop {γ : Type} {xs : List α} {b : β} {c : γ} {body : α → β → Gen (ForInStep β)}
    (hbody : ∀ x b, A (body x b)) : A (ForIn.forIn xs b body >>= fun _ => Pure.pure c) :=
  h.seq (h.forIn hbody) <| h.pure c

theorem mapM {xs : List α} {f : α → Gen β} (hf : ∀ x, A (f x)) : A (xs.mapM f) := by
  induction xs with
  | nil => exact h.pure []
  | cons x rest ih =>
    rw [List.mapM_cons]
    exact h.bind (hf x) fun y => h.bind ih fun ys => h.pure (y :: ys)

/-! ### Parts of nodes -/

theorem ofOption (o : Option α) : A (ofOption o) := by
  cases o with
  | none => exact h.incomplete
  | some a => exact h.pure a

theorem part (name : String) : A (Gen.part v name) := h.ofOption _

theorem field (t : Tree) (name : String) : A (Gen.field t name) := h.ofOption _

theorem key : A (Gen.key v) := h.ofOption _

theorem textOf : A (Gen.textOf v) := h.ofOption _

theorem items : A (Gen.items v) := h.ofOption _

theorem fieldItems (t : Tree) (name : String) : A (Gen.fieldItems t name) :=
  h.bind (h.field t name) h.items

theorem itemsIfTrue : A (Gen.itemsIfTrue v) := by
  unfold Gen.itemsIfTrue
  split
  · exact h.items v
  · exact h.pure []

theorem treeOf : A (Gen.treeOf v) := by
  cases v with
  | tree t => exact h.pure t
  | _ => exact h.incomplete

/-! ### Types -/

theorem resultOf (node : Value) : A (Check.resultOf node) := by
  unfold Check.resultOf
  split
  · exact h.pure _
  refine h.bind (h.part ..) fun type => ?_
  split
  · exact h.pure _
  refine h.bind (h.part ..) fun action => ?_
  split
  · exact h.pure _
  refine h.bind (h.part ..) fun selectors => ?_
  split
  · exact h.pure _
  · exact h.bind (h.items _) fun _ => h.ofOption _

theorem typeOrName (param : Value) : A (Check.typeOrName param) := by
  refine h.bind (h.part ..) fun type => ?_
  split
  · exact h.pure _
  · exact h.part ..

theorem earlierParam (earlier : Value) (i : Nat) : A (Check.earlierParam earlier i) := by
  unfold Check.earlierParam
  dsimp only
  split
  · refine h.bind (h.items _) fun params => ?_
    split
    · exact h.typeOrName _
    · exact h.pure _
  · exact h.pure _

theorem mayReplace (declared actual type : Value) : A (Check.mayReplace declared actual type) := by
  unfold Check.mayReplace
  split
  · exact h.pure _
  split
  · exact h.pure _
  · exact h.bind (h.part ..) fun _ => h.pure _

/-! ### Selectors -/

theorem partName : A (Message.partName v) := by
  unfold Message.partName
  split
  · exact h.pure _
  · exact h.part ..

theorem moreParts (n : Nat) (parts : List Value) : A (Message.moreParts n parts) := by
  induction n generalizing parts with
  | zero => exact h.pure _
  | succ n ih =>
    cases parts with
    | nil => exact h.bind (ih []) fun _ => h.pure _
    | cons v rest =>
      refine h.bind (h.partName v) fun name => h.bind (h.textOf name) fun _ => ?_
      exact h.bind (ih rest) fun _ => h.pure _

theorem firstPart (parts : Value) : A (Message.firstPart parts) := by
  unfold Message.firstPart
  split
  · exact h.bind (h.items _) fun _ => h.ofOption _
  · exact h.pure _

theorem selector (parts : Value) (colons earlier : Nat) :
    A (Message.selector parts colons earlier) := by
  refine h.bind (h.firstPart _) fun v => h.bind (h.partName v) fun first => ?_
  split
  · exact h.pure _
  · exact h.ofOption _
  · exact h.bind (h.items _) fun _ => h.bind (h.moreParts ..) fun _ => h.ofOption _

end Sequences

namespace Looks

variable {A : StepProp} (h : Looks @A)

include h

theorem warns (w : Warning) : A (Gen.warns w) :=
  h.look (fun _ _ _ hd => by rw [hd]) fun _ => h.pure _

theorem suggestion (name : Value) : A (Check.suggestion name) :=
  h.look (fun _ _ hs _ => by rw [hs.symbols]) fun _ => h.bind (h.textOf name) fun _ => h.pure _

theorem unknownProtocol (name : Value) : A (Check.unknownProtocol name) :=
  h.look (fun _ _ hs _ => by rw [hs.symbols]) fun _ => h.bind (h.textOf name) fun _ => h.pure _

end Looks

namespace Cautions

variable {A : StepProp} (h : Cautions @A) {α β : Type}

include h

theorem explained_bind {about : Value} {message : String} {r : Gen Value} {text : String}
    (hr : Reads r) (hk : A k) : A (do
      Gen.warning about message
      Gen.note (← r) text
      k) := by
  have hall := h.seq (h.explained about message text hr) hk
  simpa only [bind_assoc] using hall

theorem shadowed (hidden : Check.Hidden) (identifier name : Value) (entity : String) : A (do
    if !(← Gen.warns .shadowedVars) then return
    Gen.warning identifier s!"{entity} '{name.display}' hides {hidden.description}"
    if !hidden.node.isNull then Gen.note hidden.node "hidden declaration is here") := by
  refine h.bind (h.warns _) fun on => ?_
  split
  · exact h.pure _
  · cases hidden.node.isNull with
    | true => exact h.seq (h.warning ..) <| h.pure _
    | false => exact h.explained _ _ _ fun hA => hA.pure hidden.node

theorem typeProtocols (protocols : Value) : A (Check.typeProtocols protocols) := by
  refine h.bind (h.itemsIfTrue _) fun ps => h.loop fun protocol _ => ?_
  refine h.bind (h.part ..) fun name => h.look (fun _ _ hs _ => by rw [hs.symbols]) fun s => ?_
  refine h.bind (h.key _) fun key => ?_
  split
  · refine h.bind (h.unknownProtocol _) fun message => ?_
    exact h.seq (h.warning ..) <| h.pure _
  · exact h.pure _

theorem classType (type : Value) : A (Check.classType type) := by
  refine h.bind (h.part ..) fun isClass => ?_
  split
  · refine h.bind (h.part ..) fun name => h.bind (h.key _) fun key => ?_
    refine h.look (fun _ _ hs _ => by rw [hs.symbols]) fun s => ?_
    dsimp only
    split
    · exact h.bind (h.suggestion _) fun _ => h.warning ..
    · exact h.pure _
  · exact h.pure _

theorem warnUnnecessary (node : Tree) (name : Value) (known : ClassDef) :
    A (Check.warnUnnecessary node name known) := by
  refine h.look (fun _ _ _ hd => by rw [hd]) fun s => ?_
  split
  · exact h.explained _ _ _ fun hA => hA.pure (Value.tree node)
  · exact h.pure _

theorem ivarType (type : Value) : A (Check.ivarType type) := by
  unfold Check.ivarType
  split
  · refine h.bind (h.discard (h.part ..)) fun _ => h.bind (h.warns _) fun on => ?_
    split
    · exact h.classType type
    · exact h.pure _
  · exact h.pure _

theorem parameterConflicts (selector : String) (earlier : Value) (i : Nat)
    (declared actual params : List Value) :
    A (Check.parameterConflicts selector earlier i declared actual params) := by
  induction declared generalizing i actual params with
  | nil => exact h.pure _
  | cons d declared ih =>
    cases actual with
    | nil => exact h.incomplete
    | cons a actual =>
      cases params with
      | nil => exact h.incomplete
      | cons p params =>
        refine h.bind (h.part ..) fun type => h.bind (h.mayReplace ..) fun may => ?_
        dsimp only
        split
        · refine h.bind (h.typeOrName _) fun about => ?_
          exact h.explained_bind (fun hA => hA.earlierParam ..) (ih ..)
        · exact ih ..

theorem declaredTypes (node : Tree) (returnType : Value) :
    A (Check.declaredTypes node returnType) := by
  have hparams : A (do
      for param in ← Gen.fieldItems node "params" do
        let type ← Gen.part param "type"
        if !type.isNull then Check.classType type) := by
    refine h.bind (h.fieldItems ..) fun params => h.loop fun param _ => ?_
    refine h.bind (h.part ..) fun type => ?_
    split
    · exact h.bind (h.classType _) fun _ => h.pure _
    · exact h.pure _
  refine h.bind (h.warns _) fun on => ?_
  split
  · split
    · exact h.bind (h.classType _) fun _ => hparams
    · exact hparams
  · exact h.pure _

theorem overriding (node : Tree) (selector : String) (types : List Value)
    (overridden : Option Method) : A (Check.overriding node selector types overridden) := by
  refine h.bind (h.field ..) fun returnType => ?_
  have htypes := h.declaredTypes node returnType
  cases overridden with
  | none => exact htypes
  | some earlier =>
    refine h.bind (h.warns _) fun on => ?_
    dsimp only
    split
    · split
      · refine h.bind (h.mayReplace ..) fun may => ?_
        split
        · refine h.bind (h.resultOf _) fun about => h.explained_bind (fun hA => hA.resultOf _) ?_
          exact h.bind (h.fieldItems ..) fun _ => h.bind (h.parameterConflicts ..) fun _ => htypes
        · exact h.bind (h.fieldItems ..) fun _ => h.bind (h.parameterConflicts ..) fun _ => htypes
      · exact h.bind (h.incomplete) fun _ => htypes
    · exact htypes

theorem conformance (classId : ClassId) (protocols : Value) :
    A (Check.conformance classId protocols) := by
  refine h.bind (h.warns _) fun on => ?_
  split
  · exact h.pure _
  refine h.bind (h.items _) fun ps => h.loop fun protocol _ => ?_
  refine h.bind (h.part ..) fun name => h.bind (h.key _) fun key => ?_
  refine h.look (fun _ _ hs _ => by rw [hs.symbols]) fun s => ?_
  dsimp only
  split
  · refine h.bind (h.ofOption _) fun missing => ?_
    exact h.loop fun r _ => h.explained_bind (fun hA => hA.pure r.method.node) (h.pure _)
  · exact h.pure _

end Cautions

namespace Warns

variable {A : StepProp} (h : Warns @A)

include h

theorem parked (frame : FrameId) (about : Value) (message : String) (name : Key)
    (rule : DeferralRule) : A (Functor.discard (Gen.park frame about message name rule)) := by
  have hpark := h.park frame about message name rule none ""
  have heq : (Functor.discard (Gen.park frame about message name rule) : Gen PUnit) =
      Gen.park frame about message name rule >>= fun _ => Pure.pure PUnit.unit := by
    change Functor.mapConst PUnit.unit _ = _
    rw [map_const]
    rfl
  rw [heq]
  exact hpark

theorem reference (frame : FrameId) (node : Tree) : A (Check.reference frame node) := by
  refine h.bind (h.warns _) fun on => ?_
  split
  · exact h.pure _
  refine h.bind (h.field ..) fun name => h.bind (h.key _) fun key => ?_
  refine h.look (fun s s' hs _ => ?_) fun s => ?_
  · simp only [hs.lookup, hs.symbols, hs.context, hs.varFrame, hs.predefined, Check.predefined?]
  have hpark (similar : Option String) : A (do
      Functor.discard <| Gen.park (s.frames.varFrame frame) (.tree node)
        (s!"reference to unknown identifier '{name.display}'" ++ Check.didYouMean similar)
        key (.unknownIdentifier true)) :=
    h.parked ..
  dsimp only
  split
  · exact h.pure _
  split
  · exact h.bind (h.suggestion _) hpark
  · exact hpark none

end Warns

namespace Asks

variable {A : StepProp} (h : Asks @A) {α β : Type}

include h

theorem warnIf (w : Warning) (about : Value) (message : String) :
    A (do if ← Gen.warns w then Gen.warning about message) := by
  refine h.cautioned fun hA => hA.bind (hA.warns w) fun on => ?_
  split
  · exact hA.warning ..
  · exact hA.pure _

/-- A step that only warns may be taken on the way. -/
theorem detour {σ : Type} {look : Gen σ} {p : σ → Prop} [DecidablePred p] {yes : σ → Gen α}
    {k : Gen α} (way : σ → Gen Unit) (hyes : ∀ x, yes x = way x >>= fun _ => k)
    (hway : Cautioned (look >>= fun x => if p x then way x else Pure.pure ())) (hk : A k) :
    A (look >>= fun x => if p x then yes x else k) := by
  have heq : (look >>= fun x => if p x then yes x else k) =
      (look >>= fun x => if p x then way x else Pure.pure ()) >>= fun _ => k := by
    rw [bind_assoc]
    refine bind_congr fun x => ?_
    split
    · exact hyes x
    · rfl
  rw [heq]
  exact h.seq (h.cautioned hway) hk

theorem errorNote_bind {about : Value} {message : String} {earlier : Value} {text : String}
    (hk : A k) : A (do
      Gen.error about message
      Gen.note earlier text
      k) := by
  have hall := h.seq (h.errorNote about message earlier text) hk
  simpa only [bind_assoc] using hall

/-! ### Global names -/

theorem ignoreDuplicate (what : String) (identifier earlier : Value) :
    A (Check.ignoreDuplicate what identifier earlier) := by
  refine h.detour (fun _ => do
    let name := (← Gen.part identifier "name").display
    Gen.warning identifier s!"duplicate {what} definition '{name}' is ignored"
    if !earlier.isNull then Gen.note earlier "previous definition is here") (fun _ => ?_)
    (fun hA => hA.look (fun _ _ _ hd => by rw [hd]) fun s => ?_) (h.pure false)
  · simp only [bind_assoc]
    refine bind_congr fun name => bind_congr fun _ => ?_
    split <;> rfl
  · split
    · refine hA.bind (hA.part ..) fun name => ?_
      split
      · exact hA.explained _ _ _ fun hB => hB.pure earlier
      · exact hA.bind (hA.warning ..) fun _ => hA.pure _
    · exact hA.pure _

theorem isUniqueClass (node : Tree) (name : Value) (known : Option ClassDef) :
    A (Check.isUniqueClass node name known) := by
  refine h.bind (h.field ..) fun category => ?_
  split
  · split
    · exact h.seq (h.error ..) <| h.pure _
    · refine h.bind (h.part ..) fun c => h.look (fun _ _ hs => by rw [hs.symbols]) fun s => ?_
      split
      · exact h.seq (h.fatalAt _ _ rfl) <| h.pure _
      · exact h.pure _
  · cases known with
    | none => exact h.pure _
    | some known =>
      have hend : A (Check.warnUnnecessary node name known >>= fun _ => Pure.pure (some true)) :=
        h.seq (h.cautioned fun hA => hA.warnUnnecessary ..) <| h.pure _
      dsimp only
      split
      · exact h.seq (h.fatalAt _ _ rfl) hend
      · exact hend

theorem conflict (node : Tree) (identifier name : Value) (p : Check.Previous) :
    A (Check.conflict node identifier name p) := by
  unfold Check.conflict
  cases p.node.isNull with
  | true => exact h.seq (h.error ..) <| h.pure _
  | false => exact h.errorNote_bind (h.pure false)

theorem isUniqueName (s : GenState) (frame : FrameId) (node : Tree) (identifier name : Value)
    (key : Key) : A (Check.isUniqueName s frame node identifier name key) := by
  unfold Check.isUniqueName
  -- each branch is an answer, a repetition that is ignored, a conflict or a fatal error
  repeat' first
    | exact h.pure _
    | exact h.ignoreDuplicate ..
    | exact h.conflict ..
    | refine h.seq (h.fatalAt _ _ rfl) ?_
    | split

theorem isUnique (frame : FrameId) (node : Tree) (identifier : Value) :
    A (Check.isUnique frame node identifier) := by
  refine h.bind (h.part ..) fun name => h.bind (h.key _) fun key => ?_
  refine h.look (fun s s' hs => ?_) fun s => ?_
  · have hname : Check.isUniqueName s' frame node identifier name key =
        Check.isUniqueName s frame node identifier name key := by
      unfold Check.isUniqueName Check.predefined?
      rw [hs.symbols, hs.predefined, hs.globalVar]
    rw [hs.symbols, hname]
  dsimp only
  split
  · refine h.bind (h.isUniqueClass ..) fun answer => ?_
    cases answer with
    | some answer => exact h.pure _
    | none => exact h.isUniqueName ..
  · split
    · split
      · exact h.ignoreDuplicate ..
      · exact h.conflict ..
    · exact h.isUniqueName ..

/-! ### Hidden variables -/

theorem takeBack (hretract : ∀ i, A (retract i)) (name : Value) (refs : List IvarRef) :
    A (Check.takeBack name refs) := by
  induction refs with
  | nil => exact h.pure _
  | cons ref rest ih =>
    refine h.seq (hretract _) ?_
    refine h.detour _ (fun _ => rfl) (fun hA => hA.bind (hA.warns _) fun on => ?_) ih
    split
    · exact hA.warning ..
    · exact hA.pure _

/-- A property that also allows taking back code and names is one of the search for what a
declaration hides. What it takes back depends on the instructions that the frame remembers. -/
theorem hiddenBy
    (hlook : ∀ {β : Type} {k : GenState → Gen β}, (∀ s s', s.Concurs s' →
      (∀ id key, s'.frames.ivarRefs id key = s.frames.ivarRefs id key) → k s' = k s) →
      (∀ s, A (k s)) → A (get >>= k))
    (hundeclare : ∀ id key, A (modifyFrames (·.undeclare id key)))
    (hdrop : ∀ id key, A (modifyFrames (·.dropIvarRefs id key))) (hretract : ∀ i, A (retract i))
    (frame : FrameId) (name : Value) : A (Check.hiddenBy frame name) := by
  have hbesides (s : GenState) (key : Key) : A (Check.hiddenBesides s frame name key) := by
    unfold Check.hiddenBesides
    split
    · exact h.pure _
    split
    · exact h.pure _
    · exact h.seq (hdrop ..) <| h.seq (h.takeBack hretract ..) <| h.pure _
  refine h.bind (h.key _) fun key => hlook (fun s s' hs hrefs => ?_) fun s => ?_
  · have hsymbol : Check.hiddenSymbol s' key = Check.hiddenSymbol s key := by
      simp only [Check.hiddenSymbol, Check.predefined?, hs.symbols, hs.predefined]
    simp only [hs.lookup, hs.root, Check.hiddenBesides, hsymbol, hs.ivar, hrefs]
  split
  · exact hbesides s key
  · split
    · exact h.seq (hundeclare ..) <| hbesides s key
    · split
      · exact h.pure _
      · exact hbesides s key

theorem shadowing {frame : FrameId} {name : Value} (hhidden : A (Check.hiddenBy frame name))
    (identifier : Value) (entity : String) :
    A (Check.shadowing frame identifier name entity) := by
  refine h.bind hhidden fun hidden => ?_
  cases hidden with
  | none => exact h.pure _
  | some hidden => exact h.cautioned fun hA => hA.shadowed ..

theorem setterConflicts (classId : ClassId) (node : Tree) (selector : Value) :
    A (Check.setterConflicts classId node selector) := by
  refine h.bind (h.field ..) fun marker => ?_
  split
  · exact h.pure _
  refine h.bind (h.textOf _) fun selector => ?_
  split
  · exact h.pure _
  refine h.look (fun _ _ hs => by rw [hs.symbols]) fun s => ?_
  dsimp only
  refine h.loop fun ivar _ => ?_
  split
  · refine h.bind (h.part ..) fun readonly => ?_
    split
    · refine h.bind (h.ofOption _) fun setter => ?_
      split
      · exact h.errorNote_bind (h.pure _)
      · exact h.pure _
    · exact h.pure _
  · exact h.pure _

end Asks

namespace Judges

variable {A : StepProp} (h : Judges @A) (frame : FrameId)

include h

omit h in
theorem warnImplicit_warned (node : Tree) (message : String) (key : Key)
    (before : Option (Option Location)) :
    Warned (Check.warnImplicit frame node message key before) := by
  intro A hA
  refine hA.bind (hA.warns _) fun on => ?_
  split
  · have hpark := hA.park frame (.tree node) message key .implicitGlobal
      (before.map Value.ofLocation) "did you mean to use a comma here?"
    cases before with
    | none => exact hpark
    | some place => exact hpark
  · exact hA.pure _

theorem createGlobal (s : GenState) (node : Tree) (name : Value) (key : Key)
    (known : Option Variable) : A (Check.createGlobal s frame node name key known) := by
  have hall (isImplicit : Bool) (v : Variable) {warn : Gen Unit} (hwarn : A warn) : A (do
      if isImplicit then warn
      if known.isNone || isImplicit then Gen.declare (s.frames.root frame) key v) := by
    have hdeclare : A (if known.isNone || isImplicit then Gen.declare (s.frames.root frame) key v
        else Pure.pure ()) := by
      split
      · exact h.declare ..
      · exact h.pure _
    cases isImplicit with
    | true => exact h.seq hwarn hdeclare
    | false => exact hdeclare
  exact hall _ _ (h.warned (warnImplicit_warned _ node _ key _))

theorem assignment (node : Tree) : A (Check.assignment frame node) := by
  refine h.look (fun s s' hs => ?_) fun s => ?_
  · have howner (id : FrameId) : (s'.frames.frame? id).map Check.owner =
        (s.frames.frame? id).map Check.owner := hs.map_frame? id fun _ => rfl
    simp only [hs.context, Check.predefined?, hs.predefined, hs.lookup, Check.createGlobal,
      hs.varFrame, hs.isLocal, hs.ancestry, hs.root, howner]
  split
  · exact h.pure _
  refine h.bind (h.field ..) fun name => h.bind (h.key _) fun key => ?_
  split
  · split
    · exact h.warned fun hA => hA.bind (hA.warning ..) fun _ => hA.pure _
    · exact h.pure _
  dsimp only
  split
  · refine h.bind (h.isUnique ..) fun unique => ?_
    split
    · exact h.pure _
    · exact h.createGlobal ..
  · exact h.createGlobal ..

theorem identifier (node : Tree) : A (Check.identifier frame node) := by
  refine h.look (fun _ _ hs => by rw [hs.context]) fun s => ?_
  split
  · exact h.assignment ..
  · exact h.warned fun hA => hA.reference ..

end Judges

namespace Checks

variable {A : StepProp} (h : Checks @A) {α β : Type} (about : Value)
  (message : String)

include h

theorem report (severity : Severity) (about : Value) (message : String) :
    A (Gen.report severity about message) := by
  refine h.look (fun _ _ _ hd => by rw [hd]) fun s => h.bind (h.ofOption _) fun issue => ?_
  refine h.seq (h.diagnose _) ?_
  split
  · exact h.pure _
  · exact h.pure _
  · exact h.incomplete

theorem warning : A (Gen.warning about message) :=
  h.discard (h.report ..)

theorem error : A (Gen.error about message) := by
  refine h.bind (h.report ..) fun issue => ?_
  split
  · refine h.look (fun _ _ _ hd => by rw [hd]) fun s => h.bind (h.ofOption _) fun exceeded => ?_
    split
    · exact h.throw fun _ => ⟨_, rfl⟩
    · exact h.pure _
  · exact h.pure _

theorem note : A (Gen.note about message) :=
  h.look (fun _ _ _ hd => by rw [hd]) fun _ => h.bind (h.ofOption _) fun d => h.diagnose d

theorem noteIf (c : Bool) (about : Value) (message : String) :
    A (do if c then Gen.note about message) := by
  split
  · exact h.note ..
  · exact h.pure _

theorem fatalAt (location : Option Location) {cause : Cause} (hcause : cause.isLimit = false) :
    A (Gen.fatalAt location cause : Gen α) := by
  refine h.look (fun _ _ _ hd => by rw [hd]) fun s => h.bind (h.ofOption _) fun line => ?_
  dsimp only
  split
  · exact h.throw fun h => absurd h (by simp [Failure.isLimit, hcause])
  · exact h.throw nofun

theorem parkIssue (frame : FrameId) (about : Value) (message : String) (name : Key)
    (rule : DeferralRule) : A (Gen.park frame about message name rule) := by
  refine h.bind (h.report ..) fun issue => ?_
  cases issue with
  | none => exact h.pure _
  | some issue => exact h.seq (h.park ..) <| h.pure _

theorem warner : Warns @A where
  toLooks := h.toLooks
  warning := h.warning
  explained _ _ _ _ hr := h.bind (h.warning ..) fun _ => h.bind (hr h.toLooks) fun _ => h.note ..
  park _ _ _ _ _ place _ := by
    refine h.bind (h.parkIssue ..) fun recorded => ?_
    cases place with
    | none => exact h.pure _
    | some place => exact h.noteIf ..

theorem judge : Judges @A where
  toSequences := h.toSequences
  throw _ he := h.throw fun h => absurd h (by simp [he])
  look hsame hk := h.toLooks.look (fun s s' hs _ => hsame s s' hs) hk
  warned hm := hm h.warner
  error := h.error
  errorNote _ _ _ _ := h.bind (h.error ..) fun _ => h.note ..
  fatalAt location _ := h.fatalAt location
  declare := h.declare

end Checks

end ObjectiveJ
