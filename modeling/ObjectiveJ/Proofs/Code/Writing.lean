import ObjectiveJ.Proofs.Code.Pieces
import ObjectiveJ.Proofs.Code.State

/-!
# What a step writes

A step writes code into the buffer where it stands, and methods into the buffers for methods. `Adds`
says so: every buffer keeps what it has and gets more at its end. What is written at the place of
the step has given brackets, what goes elsewhere has nested ones, and the nodes that count have
their code written in one buffer or another.

`Puts A p m w n` says that the step `m` adds brackets `w` and the nodes `n` at the place `p`. The
code of a form of nodes is gone through from the front: what has been added since some time is a
`History`, and `Then A p H w n m Q` says that `m` ends as `Q` says if `w` and `n` have been added so
far.
-/

namespace ObjectiveJ

open Gen Text

variable {i : Instr}

def GenState.methodList (s : GenState) : List MethodBuffer :=
  match s.methods with
  | some m => [m.instanceMethods, m.classMethods]
  | none => []

/-- A state in which code can be written. -/
structure GenState.Ready (A : Account) (s : GenState) : Prop where
  sane : s.Sane A
  isInline : s.settings.inlineMsgSend = A.isInline
  refs : s.frames.RefsIn s.marks
  fresh : ∀ r, s.buffers ≤ r → s.contents r = []
  apart : (s.methodList.map (·.buffer)).Nodup
  methods : ∀ x ∈ s.methodList, x.buffer < s.buffers ∧ (x.isEmpty = true → s.contents x.buffer = [])

/-- A place where code is written: a buffer and a frame, and whether the methods in the frame are
optional. -/
structure Spot where
  buffer : Nat
  frame : FrameId
  optional : Bool

/-- The place is there. -/
structure GenState.At (s : GenState) (p : Spot) : Prop where
  buffer : p.buffer < s.buffers
  used : ∀ x ∈ s.methodList, x.buffer = p.buffer → x.isEmpty = false
  face : ∃ face, s.frames.face? p.frame = some face ∧
    (face.classId.isSome = true ∨ face.protocolId.isSome = true → face.optionalMethods = p.optional)

/-- What a step that writes code leaves alone. -/
structure GenState.Kept (s t : GenState) : Prop where
  settings : t.settings = s.settings
  faces : ∀ id face, s.frames.face? id = some face → t.frames.face? id = some face
  errors : s.diagnostics.hasErrors = true → t.diagnostics.hasErrors = true
  buffers : s.buffers ≤ t.buffers
  methods : ∀ x ∈ t.methodList, ∃ y ∈ s.methodList, y.buffer = x.buffer ∧
    (x.isEmpty = true → y.isEmpty = true)

/-- What is written into each buffer. -/
structure Fills (A : Account) (b : Nat) (w : List Char) (n : Multiset Tree) (s t : GenState)
    (d : Nat → Code) : Prop where
  contents : ∀ r, r < s.buffers → t.contents r = s.contents r ++ (d r).flatten
  faithful : ∀ r, (d r).Faithful
  elsewhere : ∀ r, r ≠ b → r ∉ s.methodList.map (·.buffer) → d r = .nil
  brackets : A.clear → SameBrackets (d b).chars w ∧ ∀ r, r ≠ b → SameBrackets (d r).chars []
  tally : A.once → t.diagnostics.hasErrors = false →
    ∑ r ∈ Finset.range s.buffers, (d r).tally A = n

/-- Code with some brackets and for some nodes is written, all else is kept. -/
structure Adds (A : Account) (b : Nat) (w : List Char) (n : Multiset Tree) (s t : GenState) :
    Prop where
  kept : s.Kept t
  code : ∃ d, Fills A b w n s t d

variable {A : Account} {p : Spot} {b : Nat} {w w' W : List Char} {n n' N : Multiset Tree}
  {s t u : GenState} {α β : Type}

theorem GenState.Held.kept (h : s.Held t) : s.Kept t where
  settings := h.settings
  faces := h.faces
  errors := h.errors
  buffers := Nat.le_of_eq h.buffers.symm
  methods x hx := ⟨x, by rwa [methodList, ← h.methods], rfl, fun h => h⟩

theorem GenState.Kept.trans (h : s.Kept t) (h' : t.Kept u) : s.Kept u where
  settings := h'.settings.trans h.settings
  faces id face hface := h'.faces id face (h.faces id face hface)
  errors hs := h'.errors (h.errors hs)
  buffers := Nat.le_trans h.buffers h'.buffers
  methods x hx := by
    obtain ⟨y, hy, hxy, hempty⟩ := h'.methods x hx
    obtain ⟨z, hz, hyz, hempty'⟩ := h.methods y hy
    exact ⟨z, hz, hyz.trans hxy, fun hx => hempty' (hempty hx)⟩

theorem GenState.Kept.noErrors (h : s.Kept t) (ht : t.diagnostics.hasErrors = false) :
    s.diagnostics.hasErrors = false := by
  cases hs : s.diagnostics.hasErrors with
  | false => rfl
  | true => rw [h.errors hs] at ht; cases ht

theorem GenState.Kept.mem_methods (h : s.Kept t) {r : Nat} (hr : r ∈ t.methodList.map (·.buffer)) :
    r ∈ s.methodList.map (·.buffer) := by
  obtain ⟨x, hx, rfl⟩ := List.mem_map.1 hr
  obtain ⟨y, hy, hxy, _⟩ := h.methods x hx
  exact List.mem_map.2 ⟨y, hy, hxy⟩

theorem GenState.At.kept (h : s.At p) (hkept : s.Kept t) : t.At p where
  buffer := Nat.lt_of_lt_of_le h.buffer hkept.buffers
  used x hx hbuffer := by
    obtain ⟨y, hy, hxy, hempty⟩ := hkept.methods x hx
    have hused := h.used y hy (hxy.trans hbuffer)
    cases hx : x.isEmpty with
    | false => rfl
    | true => rw [hempty hx] at hused; cases hused
  face := by
    obtain ⟨face, hface, howner⟩ := h.face
    exact ⟨face, hkept.faces _ _ hface, howner⟩

theorem GenState.Ready.lt_of_mem (h : s.Ready A) {r : Nat} (hr : r ∈ s.methodList.map (·.buffer)) :
    r < s.buffers := by
  obtain ⟨x, hx, rfl⟩ := List.mem_map.1 hr
  exact (h.methods x hx).1

theorem Fills.conv {d : Nat → Code} (h : Fills A b w n s t d) (hw : A.clear → SameBrackets w w')
    (hn : A.once → t.diagnostics.hasErrors = false → n = n') : Fills A b w' n' s t d :=
  ⟨h.contents, h.faithful, h.elsewhere,
    fun hclear => ⟨(h.brackets hclear).1.trans (hw hclear), (h.brackets hclear).2⟩,
    fun honce herrors => (h.tally honce herrors).trans (hn honce herrors)⟩

theorem Fills.append {d e : Nat → Code} (hs : s.Ready A) (hb : b < s.buffers) (hst : s.Kept t)
    (htu : t.Kept u) (hd : Fills A b w n s t d) (he : Fills A b w' n' t u e) :
    Fills A b (w ++ w') (n + n') s u fun r => d r ++ e r where
  contents r hr := by
    rw [he.contents r (Nat.lt_of_lt_of_le hr hst.buffers), hd.contents r hr, List.append_assoc,
      Code.flatten_append]
  faithful r := (hd.faithful r).append (he.faithful r)
  elsewhere r hr hmethod := by
    rw [hd.elsewhere r hr hmethod, he.elsewhere r hr fun hmem => hmethod (hst.mem_methods hmem),
      Code.nil_append]
  brackets hclear := by
    refine ⟨?_, fun r hr => ?_⟩
    · rw [Code.chars_append]
      exact (hd.brackets hclear).1.append (he.brackets hclear).1
    · rw [Code.chars_append]
      exact ((hd.brackets hclear).2 r hr).append ((he.brackets hclear).2 r hr)
  tally honce herrors := by
    rw [Finset.sum_congr rfl fun r _ => Code.tally_append (d r) (e r), Finset.sum_add_distrib,
      hd.tally honce (htu.noErrors herrors), ← he.tally honce herrors]
    refine congrArg (n + ·) (Finset.sum_subset (Finset.range_mono hst.buffers) fun r _ hr => ?_)
    -- buffers that are new at `t` are neither the place nor for methods
    rw [Finset.mem_range, Nat.not_lt] at hr
    rw [he.elsewhere r (Nat.ne_of_gt (Nat.lt_of_lt_of_le hb hr)) fun hmem =>
      Nat.not_lt.2 hr (hs.lt_of_mem (hst.mem_methods hmem)), Code.tally_nil]

namespace Adds

theorem of_kept (h : s.Kept t) (hcontents : ∀ r, r < s.buffers → t.contents r = s.contents r) :
    Adds A b [] 0 s t where
  kept := h
  code := ⟨fun _ => .nil, fun r hr => by rw [hcontents r hr]; exact (List.append_nil _).symm,
    fun _ => trivial, fun _ _ _ => rfl, fun _ => ⟨.refl _, fun _ _ => .refl _⟩,
    fun _ _ => Finset.sum_const_zero⟩

theorem refl (A : Account) (b : Nat) (s : GenState) : Adds A b [] 0 s s :=
  of_kept (GenState.Held.refl s).kept fun _ _ => rfl

theorem conv (h : Adds A b w n s t) (hw : A.clear → SameBrackets w w')
    (hn : A.once → t.diagnostics.hasErrors = false → n = n') : Adds A b w' n' s t :=
  ⟨h.kept, h.code.imp fun _ hd => hd.conv hw hn⟩

theorem trans (hs : s.Ready A) (hb : b < s.buffers) (h : Adds A b w n s t)
    (h' : Adds A b w' n' t u) : Adds A b (w ++ w') (n + n') s u where
  kept := h.kept.trans h'.kept
  code := by
    obtain ⟨d, hd⟩ := h.code
    obtain ⟨e, he⟩ := h'.code
    exact ⟨_, hd.append hs hb h.kept h'.kept he⟩

/-- What is written into a buffer for methods may be written from any place. -/
theorem move {c : Nat} (hc : c ∈ s.methodList.map (·.buffer)) (h : Adds A c [] n s t) :
    Adds A b [] n s t where
  kept := h.kept
  code := by
    obtain ⟨d, hd⟩ := h.code
    refine ⟨d, hd.contents, hd.faithful, fun r _ hmethod => ?_, fun hclear => ?_, hd.tally⟩
    · exact hd.elsewhere r (fun hrc => hmethod (hrc ▸ hc)) hmethod
    · have hall (r : Nat) : SameBrackets (d r).chars [] := by
        by_cases hr : r = c
        · subst hr
          exact (hd.brackets hclear).1
        · exact (hd.brackets hclear).2 r hr
      exact ⟨hall b, fun r _ => hall r⟩

end Adds

/-! ### Steps -/

/-- A step that adds brackets and nodes at a place. -/
def Puts (A : Account) (p : Spot) (m : Gen α) (w : List Char) (n : Multiset Tree) : Prop :=
  ∀ s, s.Ready A → s.At p →
    wp m (fun _ t => t.Ready A ∧ Adds A p.buffer w n s t) (fun _ _ => True) s

/-- What is known of a state by what has been added at a place since some time. -/
structure History (A : Account) (b : Nat) where
  Of : List Char → Multiset Tree → GenState → Prop
  add : ∀ {w n w' n' t u}, t.Ready A → Of w n t → Adds A b w' n' t u → Of (w ++ w') (n + n') u
  conv : ∀ {w n w' n' t}, Of w n t → (A.clear → SameBrackets w w') →
    (A.once → t.diagnostics.hasErrors = false → n = n') → Of w' n' t

/-- A history ends with these brackets and nodes. -/
def History.Ends (H : History A b) (w : List Char) (n : Multiset Tree) (t : GenState) : Prop :=
  t.Ready A ∧ H.Of w n t

/-- All that has been added since a state. -/
def History.since (hs : s.Ready A) (hb : b < s.buffers) : History A b where
  Of w n t := Adds A b w n s t
  add _ h h' := h.trans hs hb h'
  conv := Adds.conv

/-- How a step ends if these brackets and nodes have been added before. -/
def Then (A : Account) (p : Spot) (H : History A p.buffer) (w : List Char)
    (n : Multiset Tree) (m : Gen α) (Q : GenState → Prop) : Prop :=
  ∀ t, t.Ready A → t.At p → H.Of w n t → wp m (fun _ u => Q u) (fun _ _ => True) t

/-- A step after which the buffers hold what they held. -/
def Calms (m : Gen α) : Prop := ∀ s, s.frames.RefsIn s.marks →
  wp m (fun _ t => t.frames.RefsIn t.marks ∧ t.contents = s.contents) (fun _ _ => True) s

/-- A step that writes no code. -/
def Rests (A : Account) (m : Gen α) : Prop := Steady A m ∧ Calms m

/-- What a step has as its result, if the brackets are of interest. -/
def Gives (A : Account) (m : Gen α) (P : α → Prop) : Prop :=
  A.clear → ∀ s, wp m (fun a _ => P a) (fun _ _ => True) s

theorem Puts.start {m : Gen α} (h : ∀ {H : History A p.buffer}, Then A p H [] 0 m (H.Ends W N)) :
    Puts A p m W N := fun s hs hp => h (H := .since hs hp.buffer) s hs hp (.refl A p.buffer s)

theorem Puts.conv {m : Gen α} (h : Puts A p m w n) (hw : A.clear → SameBrackets w W)
    (hn : A.once → n = N) : Puts A p m W N := fun s hs hp =>
  (h s hs hp).imp fun _ _ ht => ⟨ht.1, ht.2.conv hw fun honce _ => hn honce⟩

theorem GenState.Ready.held (hs : s.Ready A) (hsane : t.Sane A) (hheld : s.Held t)
    (hrefs : t.frames.RefsIn t.marks) (hcontents : t.contents = s.contents) : t.Ready A := by
  have hlist : t.methodList = s.methodList := by rw [methodList, hheld.methods]; rfl
  refine ⟨hsane, hheld.settings ▸ hs.isInline, hrefs, ?_, ?_, ?_⟩
  · rw [hcontents, hheld.buffers]
    exact hs.fresh
  · rw [hlist]
    exact hs.apart
  · rw [hlist, hcontents, hheld.buffers]
    exact hs.methods

theorem Quiets.calms {m : Gen α} (h : Quiets m) : Calms m := fun s hs =>
  (h s).imp fun _ _ ht => ⟨(ht.refs hs).1, ht.contents hs⟩

theorem Calms.bind {m : Gen α} {k : α → Gen β} (hm : Calms m) (hk : ∀ a, Calms (k a)) :
    Calms (m >>= k) := fun s hs =>
  (hm s hs).bind fun a t ht => (hk a t ht.1).imp fun _ _ hu => ⟨hu.1, hu.2.trans ht.2⟩

theorem Rests.ready {m : Gen α} (h : Rests A m) (hs : s.Ready A) :
    wp m (fun _ t => t.Ready A ∧ s.Held t ∧ t.contents = s.contents) (fun _ _ => True) s :=
  ((h.1 s hs.sane).and (h.2 s hs.refs)).mono
    (fun _ _ ht => ⟨hs.held ht.1.1 ht.1.2 ht.2.1 ht.2.2, ht.1.2, ht.2.2⟩) fun _ _ _ => trivial

theorem Rests.puts {m : Gen α} (h : Rests A m) : Puts A p m [] 0 := fun _ hs _ =>
  (h.ready hs).imp fun _ _ ⟨hready, hheld, hcontents⟩ =>
    ⟨hready, .of_kept hheld.kept fun r _ => congrFun hcontents r⟩

namespace Gives

variable {m : Gen α} {k : α → Gen β} {P : β → Prop}

theorem pure {a : β} (h : A.clear → P a) : Gives A (pure a) P := fun hclear _ => h hclear

theorem bind {R : α → Prop} (hm : Gives A m R) (hk : ∀ a, (A.clear → R a) → Gives A (k a) P) :
    Gives A (m >>= k) P := fun hclear s =>
  (hm hclear s).bind fun a t ha => hk a (fun _ => ha) hclear t

theorem any (m : Gen α) : Gives A m fun _ => True := by
  intro _ s
  unfold wp
  split <;> trivial

theorem skip (hk : ∀ a, Gives A (k a) P) : Gives A (m >>= k) P := bind (any m) fun a _ => hk a

theorem ofOption {x : Option α} (hk : ∀ a, x = some a → Gives A (k a) P) :
    Gives A (Gen.ofOption x >>= k) P := fun hclear s =>
  (wp_bind ..).2 (wp_ofOption (fun a ha => hk a ha hclear s) fun _ => trivial)

theorem option {x : Option β} (h : ∀ a, x = some a → A.clear → P a) : Gives A (Gen.ofOption x) P :=
  fun hclear _ => wp_ofOption (fun a ha => h a ha hclear) fun _ => trivial

theorem known {P : α → Prop} (h : Gives A m P) (s : GenState) :
    wp m (fun a _ => A.clear → P a) (fun _ _ => True) s := by
  by_cases hclear : A.clear
  · exact (h hclear s).imp fun _ _ ha _ => ha
  · unfold wp
    split
    · exact fun h => absurd h hclear
    · trivial

end Gives

namespace Then

variable {H : History A p.buffer} {Q : GenState → Prop} {m : Gen α} {k : α → Gen β}

theorem last_of (hm : Puts A p m w' n') (hW : A.clear → SameBrackets (w ++ w') W)
    (hN : A.once → n + n' = N) : Then A p H w n m (H.Ends W N) := fun t ht hp hof =>
  (hm t ht hp).imp fun _ _ hu => ⟨hu.1, H.conv (H.add ht hof hu.2) hW fun honce _ => hN honce⟩

theorem last (hm : Puts A p m w' n') (hW : residue (w ++ w') = residue W)
    (hN : A.once → n + n' = N) : Then A p H w n m (H.Ends W N) :=
  last_of hm (fun _ => .of_residue hW) hN

theorem only (hm : Puts A p m W N) : Then A p H [] 0 m (H.Ends W N) :=
  last hm rfl fun _ => zero_add N

theorem bind (hm : Puts A p m w' n') (hk : ∀ a, Then A p H (w ++ w') (n + n') (k a) Q) :
    Then A p H w n (m >>= k) Q := fun t ht hp hof =>
  (hm t ht hp).bind fun a u hu =>
    hk a u hu.1 (hp.kept hu.2.kept) (H.add ht hof hu.2)

theorem seq {k : Gen β} (hm : Puts A p m w' n') (hk : Then A p H (w ++ w') (n + n') k Q) :
    Then A p H w n (m >>= fun _ => k) Q := bind hm fun _ => hk

theorem bind_gives {P : α → Prop} (hm : Puts A p m w' n') (hP : Gives A m P)
    (hk : ∀ a, (A.clear → P a) → Then A p H (w ++ w') (n + n') (k a) Q) :
    Then A p H w n (m >>= k) Q := fun t ht hp hof =>
  (wp_bind m k).2 <| ((hm t ht hp).and (hP.known t)).mono (fun a u hu =>
    hk a hu.2 u hu.1.1 (hp.kept hu.1.2.kept) (H.add ht hof hu.1.2)) fun _ _ h => h.1

theorem rest (hm : Rests A m) (hk : ∀ a, Then A p H w n (k a) Q) : Then A p H w n (m >>= k) Q :=
  bind hm.puts (by simpa only [List.append_nil, add_zero] using hk)

theorem idle {k : Gen β} (hm : Rests A m) (hk : Then A p H w n k Q) :
    Then A p H w n (m >>= fun _ => k) Q := rest hm fun _ => hk

theorem rest_and {P : α → Prop} (hm : Rests A m)
    (hP : ∀ s : GenState, s.Sane A → wp m (fun a _ => P a) (fun _ _ => True) s)
    (hk : ∀ a, P a → Then A p H w n (k a) Q) : Then A p H w n (m >>= k) Q := fun t ht hp hof => by
  refine (wp_bind m k).2
    (((hm.puts t ht hp).and (hP t ht.sane)).mono (fun a u hu => ?_) fun _ _ h => h.1)
  have hadded := H.add ht hof hu.1.2
  rw [List.append_nil, add_zero] at hadded
  exact hk a hu.2 u hu.1.1 (hp.kept hu.1.2.kept) hadded

theorem rest_gives {P : α → Prop} (hm : Rests A m) (hP : Gives A m P)
    (hk : ∀ a, (A.clear → P a) → Then A p H w n (k a) Q) : Then A p H w n (m >>= k) Q :=
  rest_and hm (fun s _ => hP.known s) hk

theorem conv (h : Then A p H w' n' m Q) (hw : A.clear → SameBrackets w w') (hn : A.once → n = n') :
    Then A p H w n m Q := fun t ht hp hof => h t ht hp (H.conv hof hw fun honce _ => hn honce)

theorem look {k : GenState → Gen β} (hk : ∀ s, s.Ready A → s.At p → Then A p H w n (k s) Q) :
    Then A p H w n (MonadState.get >>= k) Q := fun t ht hp hof =>
  (wp_bind ..).2 (hk t ht hp t ht hp hof)

theorem ofOption {x : Option α} (hk : ∀ a, x = some a → Then A p H w n (k a) Q) :
    Then A p H w n (Gen.ofOption x >>= k) Q := fun t ht hp hof =>
  (wp_bind ..).2 (wp_ofOption (fun a ha => hk a ha t ht hp hof) fun _ => trivial)

theorem fatalAt (location : Option Location) (cause : Cause) (k : α → Gen β) :
    Then A p H w n ((Gen.fatalAt location cause : Gen α) >>= k) Q := by
  unfold Gen.fatalAt
  rw [bind_assoc]
  refine look fun s _ _ => ?_
  rw [bind_assoc]
  refine ofOption fun line _ => ?_
  dsimp only
  split <;> exact fun _ _ _ _ => trivial

theorem fatal (location : Option Location) (cause : Cause) :
    Then A p H w n (Gen.fatalAt location cause : Gen α) Q := by
  have h := fatalAt (H := H) (w := w) (n := n) (Q := Q) location cause (pure : α → Gen α)
  rwa [bind_pure] at h

theorem done (a : α) (hW : residue w = residue W) (hN : A.once → n = N) :
    Then A p H w n (pure a) (H.Ends W N) := fun _ ht _ hof =>
  ⟨ht, H.conv hof (fun _ => .of_residue hW) fun honce _ => hN honce⟩

/-- A step that has to succeed, or else there is an error and nothing has to be complete. -/
theorem require {m : Gen Bool} {k : Gen Unit} (hm : Rests A m)
    (herror : ∀ s : GenState, s.Sane A →
      wp m (fun done t => done = false → t.diagnostics.hasErrors = true) (fun _ _ => True) s)
    (hW : A.clear → SameBrackets w W) (hk : Then A p H w n k (H.Ends W N)) :
    Then A p H w n (m >>= fun done => if (!done) = true then pure () else k) (H.Ends W N) := by
  intro t ht hp hof
  refine (wp_bind ..).2 (((hm.puts t ht hp).and (herror t ht.sane)).mono (fun done u hu => ?_)
    fun _ _ _ => trivial)
  obtain ⟨⟨hready, hadds⟩, herrors⟩ := hu
  have hadded := H.add ht hof hadds
  rw [List.append_nil, add_zero] at hadded
  cases done with
  | true => exact hk u hready (hp.kept hadds.kept) hadded
  | false =>
    refine ⟨hready, H.conv hadded hW fun _ hnone => ?_⟩
    rw [herrors rfl] at hnone
    cases hnone

/-- A frame is opened that has not been there before. What follows stands in it. -/
theorem newFrame {f : Frame} {k : FrameId → Gen β} (o : Bool) (hparked : f.parked = [])
    (hrefs : f.ivarRefs = {}) (hface : A.clear → f.face.Nests A.known)
    (howner : f.classId.isSome = true ∨ f.protocolId.isSome = true → f.optionalMethods = o)
    (hk : ∀ t id, H.Of w n t → t.frames.face? id = none → Then A ⟨p.buffer, id, o⟩ H w n (k id) Q) :
    Then A p H w n (Gen.newFrame f >>= k) Q := by
  intro t ht hp hof
  obtain ⟨⟨hsane, hheld⟩, hid⟩ := wp_newFrame (A := A) ht.sane hparked hface
  have hnew : t.frames.face? t.frames.store.size = none := by
    rw [Option.eq_none_iff_forall_ne_some]
    exact fun face hface => Nat.lt_irrefl _ (Frames.lt_of_face? hface)
  refine (wp_bind ..).2 (hk t _ hof hnew _ (ht.held hsane hheld (ht.refs.new hrefs) rfl) ?_ ?_)
  · exact ⟨hp.buffer, hp.used, _, hid, howner⟩
  · have hadd := H.add ht hof (.of_kept hheld.kept fun _ _ => rfl)
    rwa [List.append_nil, add_zero] at hadd

theorem newScope {f : Frame} {k : FrameId → Gen β} (hparked : f.parked = [])
    (hrefs : f.ivarRefs = {}) (hface : f.face = ⟨.null, .null, none, none, false⟩)
    (hk : ∀ id, Then A ⟨p.buffer, id, p.optional⟩ H w n (k id) Q) :
    Then A p H w n (Gen.newFrame f >>= k) Q := by
  refine newFrame p.optional hparked hrefs (fun _ => ?_) (fun howner => ?_) fun _ id _ _ => hk id
  · rw [hface]
    exact ⟨.of_residue rfl, .of_residue rfl, nofun⟩
  · have hclass : f.classId = none := congrArg Face.classId hface
    have hprotocol : f.protocolId = none := congrArg Face.protocolId hface
    simp [hclass, hprotocol] at howner

end Then

/-! ### Instructions -/

theorem wp_emitted (i : Instr) (s : GenState) :
    wp (emit i) (fun _ t => t = { s with trace := s.trace.push i }) (fun _ _ => True) s :=
  wp_instr i rfl trivial

theorem Adds.append {is : List Instr} {c : Code} (hb : b < s.buffers) (hkept : s.Kept t)
    (hcontents : t.contents = s.contents.append b is) (hc : c.flatten = is)
    (hfaithful : c.Faithful) : Adds A b c.chars (c.tally A) s t where
  kept := hkept
  code := by
    refine ⟨fun r => if r = b then c else .nil, fun r _ => ?_, fun r => ?_, fun r hr _ => if_neg hr,
      fun _ => ⟨by rw [if_pos rfl]; exact .refl _, fun r hr => by rw [if_neg hr]; exact .refl _⟩,
      fun _ _ => ?_⟩
    · rw [hcontents, Contents.append]
      split
      · rw [hc]
      · exact (List.append_nil _).symm
    · split
      · exact hfaithful
      · trivial
    · rw [Finset.sum_eq_single b (fun r _ hr => by rw [if_neg hr]; rfl)
        fun h => absurd (Finset.mem_range.2 hb) h, if_pos rfl]

theorem GenState.Ready.emitted (hs : s.Ready A) {c : Nat} {is : List Instr} (hc : c < s.buffers)
    (hused : ∀ x ∈ s.methodList, x.buffer = c → x.isEmpty = false)
    (hcontents : s.contents.exec i = s.contents.append c is) :
    ({ s with trace := s.trace.push i } : GenState).Ready A := by
  have hpush : ({ s with trace := s.trace.push i } : GenState).contents = s.contents.append c is :=
    (s.contents_push i).trans hcontents
  refine ⟨⟨⟨hs.sane.numbers.issues, hs.sane.numbers.waiting⟩, hs.sane.seen, hs.sane.faces,
    hs.sane.symbols, hs.sane.source⟩, hs.isInline, ?_, fun r hr => ?_, hs.apart,
    fun x hx => ⟨(hs.methods x hx).1, fun hempty => ?_⟩⟩
  · rw [GenState.marks_push]
    exact hs.refs.append _
  · rw [hpush, Contents.append_of_ne _ _ (Nat.ne_of_gt (Nat.lt_of_lt_of_le hc hr))]
    exact hs.fresh r hr
  · have hne : x.buffer ≠ c := fun heq => by
      rw [hused x hx heq] at hempty
      cases hempty
    rw [hpush, Contents.append_of_ne _ _ hne]
    exact (hs.methods x hx).2 hempty

theorem GenState.Held.push (s : GenState) (i : Instr) : s.Held { s with trace := s.trace.push i } :=
  ⟨rfl, rfl, rfl, fun _ _ h => h, fun h => h⟩

/-- Code is written into one buffer only, and nothing else changes. -/
structure Solely (A : Account) (b : Nat) (w : List Char) (n : Multiset Tree) (s t : GenState) :
    Prop where
  held : s.Held t
  code : ∃ c : Code, t.contents = s.contents.append b c.flatten ∧ c.Faithful ∧
    (A.clear → SameBrackets c.chars w) ∧ (A.once → t.diagnostics.hasErrors = false → c.tally A = n)

namespace Solely

theorem adds (hb : b < s.buffers) (h : Solely A b w n s t) : Adds A b w n s t := by
  obtain ⟨c, hcontents, hfaithful, hbrackets, htally⟩ := h.code
  exact (Adds.append hb h.held.kept hcontents rfl hfaithful).conv hbrackets htally

theorem of_contents (h : s.Held t) (hcontents : t.contents = s.contents) : Solely A b [] 0 s t where
  held := h
  code := ⟨.nil, by rw [Code.flatten, Contents.append_nil, hcontents], trivial, fun _ => .refl _,
    fun _ _ => rfl⟩

theorem trans (h : Solely A b w n s t) (h' : Solely A b w' n' t u) :
    Solely A b (w ++ w') (n + n') s u where
  held := h.held.trans h'.held
  code := by
    obtain ⟨c, hcontents, hfaithful, hbrackets, htally⟩ := h.code
    obtain ⟨d, hcontents', hfaithful', hbrackets', htally'⟩ := h'.code
    refine ⟨c ++ d, ?_, hfaithful.append hfaithful', fun hclear => ?_, fun honce herrors => ?_⟩
    · rw [hcontents', hcontents, Contents.append_append, Code.flatten_append]
    · rw [Code.chars_append]
      exact (hbrackets hclear).append (hbrackets' hclear)
    · rw [Code.tally_append, htally honce (h'.held.kept.noErrors herrors), htally' honce herrors]

theorem conv (h : Solely A b w n s t) (hw : A.clear → SameBrackets w w')
    (hn : A.once → t.diagnostics.hasErrors = false → n = n') : Solely A b w' n' s t where
  held := h.held
  code := by
    obtain ⟨c, hcontents, hfaithful, hbrackets, htally⟩ := h.code
    exact ⟨c, hcontents, hfaithful, fun hclear => (hbrackets hclear).trans (hw hclear),
      fun honce herrors => (htally honce herrors).trans (hn honce herrors)⟩

end Solely

theorem Instr.chars_of_isSlight (h : i.isSlight = true) : SameBrackets i.chars [] := by
  unfold Instr.isSlight at h
  split at h
  · rename_i buffer r location
    rcases Bool.or_eq_true_iff.1 h with h | h
    · obtain rfl := of_decide_eq_true h
      exact Nests.of_residue (s := "self.") rfl
    · obtain rfl := of_decide_eq_true h
      exact .refl _
  · cases h

theorem wp_emit_here (hs : s.Ready A) (hp : s.At p) (hbuffer : i.buffer? = some p.buffer)
    (hopening : i.isOpening = false) (hw : A.clear → SameBrackets i.chars w) :
    wp (emit i) (fun _ t => t.Ready A ∧ Solely A p.buffer w 0 s t) (fun _ _ => True) s := by
  refine (wp_emitted i s).imp fun _ t ht => ?_
  subst ht
  have hpush := s.contents_push i
  cases hslight : i.isSlight with
  | false =>
    have hexec := s.contents.exec_of_buffer? hslight hbuffer
    refine ⟨hs.emitted hp.buffer hp.used hexec, GenState.Held.push s i, .instr i .nil,
      hpush.trans hexec, ⟨hopening, trivial⟩, fun hclear => ?_, fun _ _ => rfl⟩
    simpa [Code.chars, Code.flatten] using hw hclear
  | true =>
    have hexec := s.contents.exec_of_isSlight hslight
    refine ⟨hs.emitted hp.buffer hp.used (hexec.trans (s.contents.append_nil p.buffer).symm), ?_⟩
    exact (Solely.of_contents (GenState.Held.push s i) (hpush.trans hexec)).conv
      (fun hclear => (Instr.chars_of_isSlight hslight).symm.trans (hw hclear)) fun _ _ => rfl

namespace Puts

variable {r : String} (location : Option Location)

protected theorem pure (a : α) : Puts A p (pure a) [] 0 := .start (.done a rfl fun _ => rfl)

theorem emit (hbuffer : i.buffer? = some p.buffer) (hopening : i.isOpening = false)
    (hw : A.clear → SameBrackets i.chars w) : Puts A p (Gen.emit i) w 0 := fun _ hs hp =>
  (wp_emit_here hs hp hbuffer hopening hw).imp fun _ _ ht => ⟨ht.1, ht.2.adds hp.buffer⟩

theorem emit_silent (hexec : ∀ c : Contents, c.exec i = c) : Puts A p (Gen.emit i) [] 0 := by
  intro s hs hp
  refine (wp_emitted i s).imp fun _ t ht => ?_
  subst ht
  have hsame : s.contents.exec i = s.contents.append p.buffer [] :=
    (hexec _).trans (s.contents.append_nil _).symm
  refine ⟨hs.emitted hp.buffer hp.used hsame, .of_kept (GenState.Held.push s i).kept fun r _ => ?_⟩
  rw [s.contents_push, hexec]

theorem writeAt {v : Value} (hv : A.clear → v.Clear) :
    Puts A p (Gen.writeAt p.buffer v location) [] 0 := by
  refine emit rfl rfl fun hclear => ?_
  cases htext : v.text? with
  | none =>
    rw [Instr.chars, htext]
    exact .refl _
  | some s =>
    rw [Instr.chars, htext]
    exact (Value.clear_text? (hv hclear) htext).nests

theorem textAt (hr : A.clear → SameBrackets r.toList w) :
    Puts A p (Gen.textAt p.buffer r location) w 0 := emit rfl rfl hr

/-- A text without brackets that are not closed. -/
theorem nested (h : residue r.toList = []) :
    Puts A p (Gen.textAt p.buffer r location) [] 0 := textAt location fun _ => .of_residue h

theorem text (hr : A.clear → SameBrackets r.toList w) : Puts A p (Gen.text p.buffer r) w 0 :=
  textAt none hr

theorem verbatim : Puts A p (Gen.text p.buffer r) r.toList 0 := text fun _ => .refl _

theorem template (hr : A.clear → SameBrackets r.toList w) :
    Puts A p (Gen.template p.buffer r) w 0 := emit rfl rfl hr

theorem templateAt (hr : A.clear → SameBrackets r.toList w) :
    Puts A p (Gen.templateAt p.buffer r location) w 0 := emit rfl rfl hr

theorem continuedAt (hr : A.clear → SameBrackets r.toList w) :
    Puts A p (Gen.continuedAt p.buffer r location) w 0 := emit rfl rfl hr

theorem indent : Puts A p Gen.indent [] 0 := emit_silent fun _ => rfl

theorem dedent : Puts A p Gen.dedent [] 0 := emit_silent fun _ => rfl

theorem hookOf (type : String) {key : HookKey}
    (h : ∀ ancestry, (Instr.hook p.buffer type key ancestry).isOpening = false) :
    Puts A p (Gen.hookOf p.buffer type key) [] 0 :=
  .start <| .look fun s _ _ =>
    .last (emit (w := []) rfl (h s.ancestry) fun _ => .refl _) rfl (by simp)

theorem hook (type : String) {key : String} (h : key ≠ "before") :
    Puts A p (Gen.hook p.buffer type key) [] 0 :=
  hookOf type fun _ => by simp [Instr.isOpening, h]

end Puts

end ObjectiveJ
