import ObjectiveJ.Generate.Expression
import ObjectiveJ.Proofs.Law.Check
import ObjectiveJ.Proofs.Layout.Shift

/-!
# Laws for steps of the generator

A *law* says which steps are allowed in a frame. It has to allow the basic steps, and whatever is
put together of allowed steps. Then it allows the code of every form of nodes, if it allows the code
of the parts. That is shown once for all laws: each form is opened here and in the modules beside
this one, and no more.

A step that looks at the state has to go on in the same way in states that concur, so the law of two
runs that differ only in their diagnostics is a law in this sense. Where a step looks at the options
for how code is written, it may go on in another *style*: what it writes may differ, but nothing
else.

What is changed for a while is changed back by the same step: the indentation between the two sides
of a shift, and the assignment that a name stands in.
-/

namespace ObjectiveJ

variable {m : Gen Unit}

/-- How the declaration of receiver temps starts. -/
def tempsHeader : String := "\n\n// Generated receiver temp variables\nvar "

/-- Types of nodes that take or declare receiver temps. -/
def tempTypes : List String := [
  "Program", "FunctionDeclaration", "FunctionExpression", "objj_MethodDeclaration",
  "objj_MessageSendExpression", "objj_ArrayLiteral", "objj_DictionaryLiteral"]

/-- An instruction that neither enters nor leaves a node, starts no declaration of temps and does
not change the indentation. -/
def Instr.isPlain (i : Instr) : Bool := i.isLevel && match i with
  | .hook _ _ (.plain key) _ => key ≠ "before" ∧ key ≠ "after"
  | .template _ s _ _ => s ≠ tempsHeader
  | _ => true

open Gen

def Shift.begin : Shift → Gen Unit
  | levels => indent
  | inside buffer type e => hook buffer type e.afterLeft
  | array buffer type n => hookOf buffer type (.bracket "after" "left-bracket" n)

def Shift.finish : Shift → Gen Unit
  | levels => dedent
  | inside buffer type e => hook buffer type e.beforeRight
  | array buffer type n => hookOf buffer type (.bracket "before" "right-bracket" n)

/-- Methods are given names in one of two styles only, in the first one or in the second one. -/
def Settings.OnlyNames (s s' : Settings) (first : Bool) : Prop :=
  s.methodNames = first ∧ s'.methodNames = !first

/-- Two steps that differ only in what they write. The first or the second one may need a part that
is missing. -/
inductive Styled (A : StepProp) (mayLack : Bool → Prop) :
    ∀ {α : Type}, Gen α → Gen α → Prop
  | same {α : Type} {m : Gen α} : A m → Styled A mayLack m m
  | bind {α β : Type} {m m' : Gen α} {k k' : α → Gen β} : Styled A mayLack m m' →
    (∀ a, Styled A mayLack (k a) (k' a)) → Styled A mayLack (m >>= k) (m' >>= k')
  | emit {i j : Instr} : i.isPlain = true → j.isPlain = true →
    Styled A mayLack (emit i) (emit j)
  | look {β : Type} {k k' : GenState → Gen β} : (∀ s s', s.Concurs s' → k s' = k s) →
    (∀ s s', s.Concurs s' → k' s' = k' s) → (∀ s, Styled A mayLack (k s) (k' s)) →
    Styled A mayLack (get >>= k) (get >>= k')
  | more {i : Instr} : i.isPlain = true → Styled A mayLack (emit i) (pure ())
  | less {i : Instr} : i.isPlain = true → Styled A mayLack (pure ()) (emit i)
  | lacks {α : Type} {m : Gen α} : mayLack true → A m → Styled A mayLack incomplete m
  | lacked {α : Type} {m : Gen α} : mayLack false → A m → Styled A mayLack m incomplete

/-- Which steps are allowed, and which values may be compiled. -/
structure Law where
  Allows : FrameId → ∀ {α : Type}, Gen α → Prop
  Admits : Value → Prop
  admits_part : ∀ {v w : Value} {name : String}, Admits v → v.part? name = some w → Admits w
  admits_item : ∀ {v w : Value} {ws : List Value}, Admits v → v.items? = some ws → w ∈ ws → Admits w
  judges : ∀ f, Judges (@Allows f)
  /-- A declaration takes back what it hides. -/
  hiddenBy : ∀ f name, Allows f (Check.hiddenBy f name)
  emit : ∀ f {i : Instr}, i.isPlain = true → Allows f (emit i)
  shifted : ∀ {f} (sh : Shift) {α : Type} {m : Gen α}, Allows f m →
    Allows f (do
      sh.begin
      let a ← m
      sh.finish
      return a)
  style : ∀ {f} {β : Type} {k : GenState → Gen β},
    (∀ s s', s.Concurs s' → s'.settings = s.settings → k s' = k s) →
    (∀ s s', s.Concurs s' →
      Styled (@Allows f) (s.settings.OnlyNames s'.settings) (k s) (k s')) →
    Allows f (get >>= k)
  newBuffer : ∀ f, Allows f newBuffer
  setContext : ∀ f id {g : Context → Context}, (∀ c, (g c).assignment = c.assignment) →
    Allows f (setContext id g)
  assigning : ∀ {f} id v {m : Gen Unit}, Allows f m →
    Allows f (do
      let s ← get
      Gen.setContext id fun c => { c with assignment := v }
      m
      Gen.setContext id fun c => { c with assignment := (s.frames.context id).assignment })
  undeclare : ∀ f id key, Allows f (modifyFrames (·.undeclare id key))
  selfAssigned : ∀ f id,
    Allows f (modifyFrames (·.modify id fun frame => { frame with selfAssigned := true }))
  /-- A name with `self.` before it is remembered together with the number of its instruction. -/
  ivarReference : ∀ (t : Tree) (site : Site) {name : Value} {key : Key}, name.key? = some key →
    Allows site.frame (do
      Expression.writeSelf t name site (.ivar key)
      writeAt site.buffer name t.location)

namespace Styled

variable {A : StepProp} {p : Bool → Prop} {α : Type} {k k' : Gen α} {i j : Instr}

/-- Whatever is written first, if it is plain. -/
theorem write (hi : i.isPlain = true) (hj : j.isPlain = true) (h : Styled A p k k') :
    Styled A p (Gen.emit i >>= fun _ => k) (Gen.emit j >>= fun _ => k') :=
  .bind (.emit hi hj) fun _ => h

theorem optional {b b' : Bool} (hi : i.isPlain = true) (hj : j.isPlain = true)
    (h : Styled A p k k') :
    Styled A p (if b then Gen.emit i >>= fun _ => k else k)
      (if b' then Gen.emit j >>= fun _ => k' else k') := by
  cases b with
  | true =>
    cases b' with
    | true => exact .write hi hj h
    | false =>
      have hmore : Styled A p (Gen.emit i >>= fun _ => k) (pure () >>= fun _ => k') :=
        .bind (.more hi) fun _ => h
      simpa using hmore
  | false =>
    cases b' with
    | true =>
      have hless : Styled A p (pure () >>= fun _ => k) (Gen.emit j >>= fun _ => k') :=
        .bind (.less hj) fun _ => h
      simpa using hless
    | false => exact h

theorem optionally {b b' : Bool} (hA : A (pure () : Gen Unit)) (hi : i.isPlain = true)
    (hj : j.isPlain = true) :
    Styled A p (if b then Gen.emit i else pure ()) (if b' then Gen.emit j else pure ()) := by
  cases b with
  | true =>
    cases b' with
    | true => exact .emit hi hj
    | false => exact .more hi
  | false =>
    cases b' with
    | true => exact .less hj
    | false => exact .same hA

end Styled

/-- Both of two steps that differ in style are allowed. -/
theorem Sequences.of_styled {A : StepProp} (h : Sequences @A)
    (hlook : ∀ {β : Type} {k : GenState → Gen β}, (∀ s s', s.Concurs s' → k s' = k s) →
      (∀ s, A (k s)) → A (get >>= k))
    (hemit : ∀ {i : Instr}, i.isPlain = true → A (emit i)) {p : Bool → Prop} {α : Type}
    {m m' : Gen α} (hstyled : Styled A p m m') : A m ∧ A m' := by
  induction hstyled with
  | same hm => exact ⟨hm, hm⟩
  | bind _ _ ihm ihk => exact ⟨h.bind ihm.1 fun a => (ihk a).1, h.bind ihm.2 fun a => (ihk a).2⟩
  | emit hi hj => exact ⟨hemit hi, hemit hj⟩
  | look hk hk' _ ih => exact ⟨hlook hk fun s => (ih s).1, hlook hk' fun s => (ih s).2⟩
  | more hi => exact ⟨hemit hi, h.pure _⟩
  | less hi => exact ⟨h.pure _, hemit hi⟩
  | lacks _ hm => exact ⟨h.incomplete, hm⟩
  | lacked _ hm => exact ⟨hm, h.incomplete⟩

namespace Sequences

variable {A : StepProp} (h : Sequences @A)

include h

theorem style (hlook : ∀ {β : Type} {k : GenState → Gen β}, (∀ s, A (k s)) → A (get >>= k))
    (hemit : ∀ {i : Instr}, i.isPlain = true → A (emit i)) {p : GenState → Bool → Prop}
    {β : Type} {k : GenState → Gen β} (hk : ∀ s, Styled A (p s) (k s) (k s)) : A (get >>= k) :=
  hlook fun s => (h.of_styled (fun _ => hlook) hemit (hk s)).1

variable (hlook : ∀ {β : Type} {k : GenState → Gen β}, (∀ s s', s.Concurs s' → k s' = k s) →
  (∀ s, A (k s)) → A (get >>= k))

include hlook

theorem shifted (sh : Shift) (hopen : ∀ ancestry, A (emit (sh.opening ancestry)))
    (hclose : ∀ ancestry, A (emit (sh.closing ancestry))) {α : Type} {m : Gen α} (hm : A m) :
    A (do
      sh.begin
      let a ← m
      sh.finish
      return a) := by
  have hbegin : A sh.begin := by
    cases sh with
    | levels => exact hopen {}
    | _ => exact hlook (fun _ _ hs => by rw [hs.ancestry]) fun s => hopen s.ancestry
  have hfinish : A sh.finish := by
    cases sh with
    | levels => exact hclose {}
    | _ => exact hlook (fun _ _ hs => by rw [hs.ancestry]) fun s => hclose s.ancestry
  exact h.seq hbegin <| h.bind hm fun a => h.seq hfinish <| h.pure a

theorem assigning (hset : ∀ id g, A (setContext id g)) (id : FrameId) (v : Value) (hm : A m) : A (do
      let s ← get
      setContext id fun c => { c with assignment := v }
      m
      setContext id fun c => { c with assignment := (s.frames.context id).assignment }) :=
  hlook (fun _ _ hs => by simp only [hs.context]) fun _ =>
    h.seq (hset ..) <| h.seq hm <| hset ..

end Sequences

/-- A law allows nodes around what it allows, unless these take or declare temps. -/
def Law.Encloses (L : Law) : Prop :=
  ∀ {f type role} {body : Walk} {site : Site}, type ∉ tempTypes →
    L.Allows f (body { site with type }) → L.Allows f (enclose type role body site)

/-- The parts of a node may be compiled. -/
def Law.Owns (L : Law) (t : Tree) : Prop := ∀ ⦃name w⦄, t.get? name = some w → L.Admits w

theorem Law.owns {L : Law} {t : Tree} (ht : L.Admits (.tree t)) : L.Owns t := fun _ _ h =>
  L.admits_part (v := .tree t) ht h

/-- A parent may be compiled. -/
def Law.Parental (L : Law) : Prop :=
  ∃ t, L.Admits (.tree t) ∧ Ancestry.isParent t.type.name = true

theorem Law.parental {L : Law} (h : ∀ v, L.Admits v) : L.Parental :=
  ⟨{ type := .program, span := {}, fields := [] }, h _, rfl⟩

def Law.Walks (L : Law) (walk : Walker) : Prop :=
  ∀ manner v site, manner = .plain ∨ manner = .elseIf ∧ L.Parental → L.Admits v →
    L.Allows site.frame (walk manner v site)

namespace Law

variable {k : List Value → Gen β} {v : Value} {name : String}

variable {L : Law} {f : FrameId} {α β : Type} (buffer : Nat) (type : String)

theorem Walks.plain {walk : Walker} (hw : L.Walks walk) (hv : L.Admits v) (site : Site) :
    L.Allows site.frame (walk .plain v site) :=
  hw .plain v site (.inl rfl) hv

/-! ### Checks -/

section Checks

variable (L) (f)

theorem pure (a : α) : L.Allows f (pure a : Gen α) := (L.judges f).pure a

theorem throw (e : Failure) (he : e.isLimit = false) : L.Allows f (throw e : Gen α) :=
  (L.judges f).throw e he

theorem declare (id : FrameId) (key : Key) (v : Variable) : L.Allows f (declare id key v) :=
  (L.judges f).declare id key v

theorem warning (about : Value) (message : String) : L.Allows f (warning about message) :=
  (L.judges f).warned fun hA => hA.warning about message

theorem error (about : Value) (message : String) : L.Allows f (error about message) :=
  (L.judges f).error about message

theorem fatalAt (location : Option Location) (cause : Cause) (h : cause.isLimit = false) :
    L.Allows f (fatalAt location cause : Gen α) := (L.judges f).fatalAt location cause h

theorem shadowing (identifier name : Value) (entity : String) :
    L.Allows f (Check.shadowing f identifier name entity) :=
  (L.judges f).shadowing (L.hiddenBy f name) identifier entity

variable {f}

theorem bind {m : Gen α} {k : α → Gen β} (hm : L.Allows f m) (hk : ∀ a, L.Allows f (k a)) :
    L.Allows f (m >>= k) := (L.judges f).bind hm hk

theorem seq {m : Gen α} {k : Gen β} (hm : L.Allows f m) (hk : L.Allows f k) :
    L.Allows f (m >>= fun _ => k) := L.bind hm fun _ => hk

theorem get {k : GenState → Gen β} (hk : ∀ s s', s.Concurs s' → k s' = k s)
    (h : ∀ s, L.Allows f (k s)) : L.Allows f (MonadState.get >>= k) := (L.judges f).look hk h

end Checks

/-! ### Parts of nodes -/

theorem ofOption (o : Option α) : L.Allows f (ofOption o) := (L.judges f).ofOption o

theorem ofOption_bind {o : Option α} {k : α → Gen β} (hk : ∀ a, o = some a → L.Allows f (k a)) :
    L.Allows f (Gen.ofOption o >>= k) := by
  cases o with
  | none => exact L.throw f _ rfl
  | some a => exact hk a rfl

theorem part_bind {k : Value → Gen β} (hv : L.Admits v) (hk : ∀ w, L.Admits w → L.Allows f (k w)) :
    L.Allows f (part v name >>= k) :=
  ofOption_bind fun w hw => hk w (L.admits_part hv hw)

theorem field_bind {t : Tree} {k : Value → Gen β} (ht : L.Owns t)
    (hk : ∀ w, L.Admits w → L.Allows f (k w)) : L.Allows f (field t name >>= k) :=
  ofOption_bind fun w hw => hk w (ht hw)

theorem items_bind (hv : L.Admits v) (hk : ∀ ws, (∀ w ∈ ws, L.Admits w) → L.Allows f (k ws)) :
    L.Allows f (items v >>= k) :=
  ofOption_bind fun ws hws => hk ws fun _ hw => L.admits_item hv hws hw

theorem fieldItems_bind {t : Tree} (ht : L.Owns t)
    (hk : ∀ ws, (∀ w ∈ ws, L.Admits w) → L.Allows f (k ws)) :
    L.Allows f (fieldItems t name >>= k) := by
  unfold fieldItems
  rw [bind_assoc]
  exact field_bind ht fun v hv => items_bind hv hk

theorem itemsIfTrue_bind (hv : L.Admits v) (hk : ∀ ws, (∀ w ∈ ws, L.Admits w) → L.Allows f (k ws)) :
    L.Allows f (itemsIfTrue v >>= k) := by
  unfold itemsIfTrue
  split
  · exact items_bind hv hk
  · exact hk [] (by simp)

theorem part (v : Value) (name : String) : L.Allows f (Gen.part v name) := ofOption _

theorem items (v : Value) : L.Allows f (Gen.items v) := ofOption _

theorem fieldItems (t : Tree) (name : String) : L.Allows f (Gen.fieldItems t name) :=
  (L.judges f).fieldItems t name

theorem key (v : Value) : L.Allows f (Gen.key v) := ofOption _

theorem textOf (v : Value) : L.Allows f (Gen.textOf v) := ofOption _

theorem treeOf (v : Value) : L.Allows f (Gen.treeOf v) := (L.judges f).treeOf v

theorem discard {m : Gen α} (h : L.Allows f m) : L.Allows f (discard m) := (L.judges f).discard h

/-! ### Output -/

theorem writeAt (v : Value) (location : Option Location) :
    L.Allows f (writeAt buffer v location) := L.emit f rfl

theorem textAt (s : String) (location : Option Location) :
    L.Allows f (textAt buffer s location) := L.emit f rfl

theorem text (s : String) : L.Allows f (text buffer s) := L.emit f rfl

theorem template {s : String} (h : s ≠ tempsHeader) :
    L.Allows f (template buffer s) := L.emit f (by simpa [Instr.isPlain, Instr.isLevel] using h)

theorem splice (target source : Nat) : L.Allows f (splice target source) := L.emit f rfl

theorem shifted_bind (sh : Shift) {m : Gen α} {k : α → Gen β} (hm : L.Allows f m)
    (hk : ∀ a, L.Allows f (k a)) : L.Allows f (do
      sh.begin
      let a ← m
      sh.finish
      k a) := by
  have h := L.bind (L.shifted sh hm) hk
  simpa only [bind_assoc, pure_bind] using h

theorem shift (sh : Shift) (hm : L.Allows f m) : L.Allows f (do
    sh.begin
    m
    sh.finish) := by
  have h := L.shifted sh hm
  simpa using h

theorem hookOf {key : HookKey}
    (h : ∀ ancestry, (Instr.hook buffer type key ancestry).isPlain = true) :
    L.Allows f (hookOf buffer type key) :=
  L.get (fun s s' hs => by rw [hs.ancestry]) fun s => L.emit f (h s.ancestry)

/-- The keys of hooks that are no others. -/
def plainKey (key : String) : Bool := (Instr.hook 0 "" (.plain key) {}).isPlain

theorem hook {key : String} (h : plainKey key = true) :
    L.Allows f (hook buffer type key) :=
  hookOf buffer type fun _ => h

theorem formattedAt (v : Value) {key : String}
    (location : Option Location)
    (h : plainKey ("before-" ++ key) = true ∧ plainKey ("after-" ++ key) = true) :
    L.Allows f (formattedAt buffer type v key location) :=
  L.seq (hook buffer type h.1) <|
    L.seq (writeAt buffer v location) <| hook buffer type h.2

theorem formatted (type s : String) {key : String}
    (h : plainKey ("before-" ++ key) = true ∧ plainKey ("after-" ++ key) = true) :
    L.Allows f (formatted buffer type s key) := formattedAt _ _ _ _ h

theorem operator (op : Value) :
    L.Allows f (operator buffer type op) := formattedAt _ _ _ _ (by decide)

theorem comma : L.Allows f (comma buffer type) :=
  formatted _ _ _ (by decide)

theorem leftParens : L.Allows f (leftParens buffer type) :=
  formatted _ _ _ (by decide)

theorem rightParens : L.Allows f (rightParens buffer type) :=
  formatted _ _ _ (by decide)

/-- What stands in braces or brackets is allowed in them. -/
theorem enclosed (e : Enclosure) (buffer : Nat) (type left right : String)
    (location : Option Location) (hm : L.Allows f m) :
    L.Allows f (do
      Gen.formattedAt buffer type (.str left) e.leftKey location
      m
      Gen.formatted buffer type right e.rightKey) := by
  have hbefore : plainKey ("before-" ++ e.leftKey) = true := by cases e <;> decide
  have hafter : plainKey ("after-" ++ e.rightKey) = true := by cases e <;> decide
  have hall := L.seq (hook buffer type hbefore) <|
    L.seq (writeAt buffer (.str left) location) <|
      L.shifted_bind (.inside buffer type e) hm fun _ =>
        L.seq (writeAt buffer (.str right) none) <|
          hook buffer type hafter
  simp only [Gen.formatted, Gen.formattedAt, bind_assoc]
  cases e <;> exact hall

theorem sourceComment (span : Span) : L.Allows f (sourceComment buffer span) := by
  refine L.bind ?_ fun shown => ?_
  · refine L.get (fun s s' hs => by rw [hs.source]) fun s => ?_
    cases s.settings.source with
    | none => exact L.pure f _
    | some source =>
      dsimp only
      split <;> exact L.pure f _
  · cases shown with
    | none => exact L.pure f _
    | some shown => exact textAt ..

/-! ### Parts in parentheses and after one another -/

section Parts

variable {walk : Walker} (hw : L.Walks walk) {v : Value} {site : Site}

include hw

theorem dependent (hv : L.Admits v) : L.Allows site.frame (dependent walk v site) := by
  unfold Gen.dependent
  split
  · exact hw.plain hv site
  · exact shift .levels (hw.plain hv site)

theorem parenthesized (hv : L.Admits v) (type : String) :
    L.Allows site.frame (parenthesized type (walk .plain v) site) :=
  L.seq (leftParens ..) <| L.seq (hw.plain hv site) <| rightParens ..

theorem operand (hv : L.Admits v) (parent : Tree) (right : Bool) :
    L.Allows site.frame (operand walk parent v right site) := by
  refine L.bind (treeOf v) fun t => L.bind (ofOption _) fun needed => ?_
  split
  · exact parenthesized hw hv _
  · exact hw.plain hv site

omit hw in
theorem between {separator : Gen Unit} {write : Value → Gen Unit} {vs : List Value}
    (hseparator : L.Allows f separator) (hwrite : ∀ v ∈ vs, L.Allows f (write v)) :
    L.Allows f (between separator write vs) := by
  induction vs with
  | nil => exact L.pure _ _
  | cons v rest ih =>
    have hv := hwrite v (by simp)
    cases rest with
    | nil => exact hv
    | cons w rest => exact L.seq hv <| L.seq hseparator <| ih fun u hu => hwrite u (by simp [hu])

omit hw in
theorem forM {write : Value → Gen Unit} {vs : List Value}
    (hwrite : ∀ v ∈ vs, L.Allows f (write v)) : L.Allows f (vs.forM write) := by
  induction vs with
  | nil => exact L.pure ..
  | cons v rest ih => exact L.seq (hwrite v (.head _)) <| ih fun w hw => hwrite w (.tail _ hw)

theorem Walks.inTurn {vs : List Value} (hvs : ∀ v ∈ vs, L.Admits v) :
    L.Allows site.frame (Gen.inTurn walk vs site) := forM fun v hv => hw.plain (hvs v hv) site

theorem separated {vs : List Value} (hvs : ∀ v ∈ vs, L.Admits v) :
    L.Allows site.frame (separated walk vs site) :=
  between (comma ..) fun v hv => hw.plain (hvs v hv) site

end Parts

end Law

end ObjectiveJ
