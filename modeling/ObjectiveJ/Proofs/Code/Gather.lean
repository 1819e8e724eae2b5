import ObjectiveJ.Proofs.Code.Aside

/-!
# Methods that are gathered

The methods of a class or protocol are written into two buffers of their own, from wherever they
stand in its body, and both buffers are put at the end of the class. So the code of a class is
complete once it is closed: what has been added since its buffers were opened, at its place and in
the two buffers, then stands at its place.
-/

namespace ObjectiveJ

open Gen Text

variable {kind : MethodKind}

variable {A : Account} {p : Spot} {b : Nat} {rs : List (Nat × Code)} {w w' W : List Char}
  {n n' N : Multiset Tree} {s t u : GenState} {α β : Type}

/-! ### Steps at one place -/

/-- A step that writes at a place only, where some other buffers hold code that may be put there. -/
def Pens (A : Account) (p : Spot) (rs : List (Nat × Code)) (m : Gen α) (w : List Char)
    (n : Multiset Tree) : Prop :=
  ∀ t, t.Ready A → t.At p → (∀ r ∈ rs, r.1 ≠ p.buffer ∧ t.Holds A r.1 r.2 (r.2.tally A)) →
    wp m (fun _ u => u.Ready A ∧ Solely A p.buffer w n t u) (fun _ _ => True) t

theorem GenState.Holds.solely {c : Code} {q : Nat} {m : Multiset Tree} (h : t.Holds A q c m)
    (hq : q ≠ b) (htu : Solely A b w n t u) : u.Holds A q c m where
  lt := by
    rw [htu.held.buffers]
    exact h.lt
  contents := by
    obtain ⟨d, hcontents, _⟩ := htu.code
    rw [hcontents, Contents.append_of_ne _ _ hq, h.contents]
  faithful := h.faithful
  brackets := h.brackets
  tally honce herrors := h.tally honce (htu.held.kept.noErrors herrors)

namespace Pens

variable {m : Gen α} {k : α → Gen β}

theorem bind (hm : Pens A p rs m w n) (hk : ∀ a, Pens A p rs (k a) w' n') :
    Pens A p rs (m >>= k) (w ++ w') (n + n') := fun t ht hp hrs =>
  (hm t ht hp hrs).bind fun a u hu =>
    (hk a u hu.1 (hp.kept hu.2.held.kept) fun r hr =>
      ⟨(hrs r hr).1, (hrs r hr).2.solely (hrs r hr).1 hu.2⟩).imp
      fun _ _ hv => ⟨hv.1, hu.2.trans hv.2⟩

theorem conv (hm : Pens A p rs m w n) (hw : A.clear → SameBrackets w w') (hn : n = n') :
    Pens A p rs m w' n' := fun t ht hp hrs =>
  (hm t ht hp hrs).imp fun _ _ hu => ⟨hu.1, hu.2.conv hw fun _ _ => hn⟩

theorem rest (hm : Rests A m) : Pens A p rs m [] 0 := fun _ ht _ _ =>
  (hm.ready ht).imp fun _ _ hu => ⟨hu.1, .of_contents hu.2.1 hu.2.2⟩

theorem pure (a : α) : Pens A p rs (pure a) [] 0 := rest (rests_judges.pure a)

theorem template {r : String} (hr : A.clear → SameBrackets r.toList w) :
    Pens A p rs (Gen.template p.buffer r) w 0 := fun _ ht hp _ => wp_emit_here ht hp rfl rfl hr

theorem text {r : String} (hr : A.clear → SameBrackets r.toList w) :
    Pens A p rs (Gen.text p.buffer r) w 0 := fun _ ht hp _ => wp_emit_here ht hp rfl rfl hr

theorem splice {r : Nat × Code} (hr : r ∈ rs) :
    Pens A p rs (Gen.splice p.buffer r.1) [] (r.2.tally A) :=
  fun _ ht hp hrs => (hrs r hr).2.splice ht hp

end Pens

/-! ### Opening and closing -/

def GenState.opened (s : GenState) : GenState :=
  { s with
    buffers := s.buffers + 2
    methods := some ⟨⟨s.buffers, true⟩, ⟨s.buffers + 1, true⟩⟩ }

def GenState.closed (s : GenState) : GenState := { s with methods := none }

theorem GenState.methodList_opened (s : GenState) :
    s.opened.methodList = [⟨s.buffers, true⟩, ⟨s.buffers + 1, true⟩] := rfl

theorem GenState.buffers_opened (s : GenState) : s.opened.buffers = s.buffers + 1 + 1 := rfl

theorem GenState.buffer_opened {x : MethodBuffer} (hx : x ∈ s.opened.methodList) :
    x.buffer = s.buffers ∨ x.buffer = s.buffers + 1 := by
  rw [methodList_opened, List.mem_pair] at hx
  rcases hx with rfl | rfl
  · exact .inl rfl
  · exact .inr rfl

theorem GenState.Ready.opened (hs : s.Ready A) : s.opened.Ready A where
  sane := { hs.sane with numbers := { hs.sane.numbers with } }
  isInline := hs.isInline
  refs := hs.refs
  fresh r hr := hs.fresh r (by rw [buffers_opened] at hr; omega)
  apart := by simp [methodList_opened]
  methods x hx := by
    have hx := buffer_opened hx
    rw [buffers_opened]
    exact ⟨by omega, fun _ => hs.fresh _ (by omega)⟩

theorem GenState.At.opened (hp : s.At p) : s.opened.At p where
  buffer := Nat.lt_of_lt_of_le hp.buffer (Nat.le_add_right _ 2)
  used x hx hbuffer := by
    have hlt := hp.buffer
    have hx := buffer_opened hx
    omega
  face := hp.face

theorem GenState.Ready.closed (hs : s.Ready A) : s.closed.Ready A where
  sane := { hs.sane with numbers := { hs.sane.numbers with } }
  isInline := hs.isInline
  refs := hs.refs
  fresh := hs.fresh
  apart := List.nodup_nil
  methods := nofun

theorem Solely.closed (h : Solely A b w n s t) : Solely A b w n s.closed t.closed where
  held := ⟨h.held.settings, h.held.buffers, rfl, h.held.faces, h.held.errors⟩
  code := h.code

/-- What has been added since the buffers for methods were opened: code at the place, and code in
the two buffers. -/
theorem Adds.gathered {both : MethodBuffers} (hs : s.Ready A) (hb : b < s.buffers) (ht : t.Ready A)
    (h : Adds A b w n s.opened t) (hboth : t.methods = some both) :
    ∃ i c n', (both.instanceMethods.buffer ≠ b ∧ both.classMethods.buffer ≠ b) ∧
      t.Holds A both.instanceMethods.buffer i (i.tally A) ∧
      t.Holds A both.classMethods.buffer c (c.tally A) ∧
      Adds A b w n' s t.closed ∧
      (A.once → t.diagnostics.hasErrors = false → n' + (i.tally A + c.tally A) = n) := by
  obtain ⟨d, hd⟩ := h.code
  have hlist : t.methodList = [both.instanceMethods, both.classMethods] := by
    rw [GenState.methodList, hboth]
  have hnew (x : MethodBuffer) (hx : x ∈ t.methodList) : x.buffer = s.buffers ∨
      x.buffer = s.buffers + 1 := by
    obtain ⟨y, hy, hxy, _⟩ := h.kept.methods x hx
    exact hxy ▸ GenState.buffer_opened hy
  have hi := hnew both.instanceMethods (by simp [hlist])
  have hc := hnew both.classMethods (by simp [hlist])
  have happart : both.instanceMethods.buffer ≠ both.classMethods.buffer := by
    have hnodup := ht.apart
    rw [hlist] at hnodup
    simpa using hnodup
  have hbuffers : s.buffers + 2 ≤ t.buffers := h.kept.buffers
  have hholds (r : Nat) (hr : r = s.buffers ∨ r = s.buffers + 1) :
      t.Holds A r (d r) ((d r).tally A) := by
    refine ⟨by omega, ?_, hd.faithful r, fun hclear => (hd.brackets hclear).2 r (by omega),
      fun _ _ => rfl⟩
    have hempty : s.opened.contents r = [] := hs.fresh r (by omega)
    rw [hd.contents r (by rw [GenState.buffers_opened]; omega), hempty, List.nil_append]
  refine ⟨d both.instanceMethods.buffer, d both.classMethods.buffer, ∑ r ∈ Finset.range s.buffers,
    (d r).tally A,
    ⟨by omega, by omega⟩, hholds _ hi, hholds _ hc, ⟨?_, ?_⟩, fun honce herrors => ?_⟩
  · exact ⟨h.kept.settings, h.kept.faces, h.kept.errors, by
      change s.buffers ≤ t.buffers
      omega, fun _ h => by cases h⟩
  · refine ⟨fun r => if r < s.buffers then d r else .nil, fun r hr => ?_, fun r => ?_,
      fun r hr _ => ?_, fun hclear => ⟨?_, fun r hr => ?_⟩, fun _ _ => ?_⟩
    · rw [if_pos hr]
      exact hd.contents r (by rw [GenState.buffers_opened]; omega)
    · split
      · exact hd.faithful r
      · trivial
    · split
      · refine hd.elsewhere r hr fun hmem => ?_
        obtain ⟨x, hx, rfl⟩ := List.mem_map.1 hmem
        have hx := GenState.buffer_opened hx
        omega
      · rfl
    · rw [if_pos hb]
      exact (hd.brackets hclear).1
    · split
      · exact (hd.brackets hclear).2 r hr
      · exact .refl _
    · exact Finset.sum_congr rfl fun r hr => by rw [if_pos (Finset.mem_range.1 hr)]
  · have hall := hd.tally honce herrors
    rw [GenState.buffers_opened, Finset.sum_range_succ, Finset.sum_range_succ, add_assoc] at hall
    rw [← hall]
    refine congrArg _ ?_
    rcases hi with hi | hi <;> rcases hc with hc | hc
    · omega
    · rw [hi, hc]
    · rw [hi, hc, add_comm]
    · omega

theorem Puts.openMethods {k : Unit → Gen β}
    (hk : ∀ s (hs : s.Ready A), p.buffer < s.buffers → ∀ hb' : p.buffer < s.opened.buffers,
      Then A p (.since hs.opened hb') [] 0 (k ()) fun u => u.Ready A ∧ Adds A p.buffer W N s u) :
    Puts A p (Declaration.openMethods >>= k) W N := fun s hs hp =>
  (wp_bind ..).2 (hk s hs hp.buffer hp.opened.buffer s.opened hs.opened hp.opened
    (.refl A p.buffer _))

/-- The code at the end of a class or protocol, with its methods. -/
theorem Then.collect (hs : s.Ready A) (hb : p.buffer < s.buffers)
    {hb' : p.buffer < s.opened.buffers}
    {k : MethodBuffers → Gen Unit} (body : MethodBuffers → Gen Unit)
    (hend : ∀ both, k both = body both >>= fun _ => Declaration.closeMethods)
    (hbody : ∀ both i c, (both.instanceMethods.isEmpty = true → i = .nil) →
      (both.classMethods.isEmpty = true → c = .nil) →
      Pens A p [(both.instanceMethods.buffer, i), (both.classMethods.buffer, c)] (body both) []
        (i.tally A + c.tally A))
    (hW : A.clear → SameBrackets w W) (hN : A.once → n = N) :
    Then A p (.since hs.opened hb') w n (Declaration.methodBuffers >>= k)
      fun u => u.Ready A ∧ Adds A p.buffer W N s u := by
  intro t ht hp hof
  unfold Declaration.methodBuffers
  rw [bind_assoc, wp_bind, wp_get]
  refine (wp_bind ..).2 (wp_ofOption (fun both hboth => ?_) fun _ => trivial)
  rw [hend, wp_bind]
  obtain ⟨i, c, n', hne, hi, hc, hadds, hall⟩ := Adds.gathered hs hb ht hof hboth
  have hempty {x : MethodBuffer} {d : Code} {m : Multiset Tree} (hx : x ∈ t.methodList)
      (hd : t.Holds A x.buffer d m) (hempty : x.isEmpty = true) : d = .nil :=
    Code.eq_nil_of_flatten (hd.contents.symm.trans ((ht.methods x hx).2 hempty))
  have hpens := hbody both i c (hempty (by simp [GenState.methodList, hboth]) hi)
    (hempty (by simp [GenState.methodList, hboth]) hc) t ht hp (by simp [hne, hi, hc])
  refine hpens.imp fun _ u hu => ⟨hu.1.closed, ?_⟩
  have hlt : p.buffer < t.closed.buffers := hp.buffer
  refine (hadds.trans hs hb (hu.2.closed.adds hlt)).conv (fun hclear => ?_) fun honce herrors => ?_
  · rw [List.append_nil]
    exact hW hclear
  · exact (hall honce (hu.2.held.kept.noErrors herrors)).trans (hN honce)

/-! ### The start of a method -/

theorem MethodBuffers.of_mark (both : MethodBuffers) (kind other : MethodKind) :
    (both.mark kind).of other =
    if other = kind then { both.of other with isEmpty := false } else both.of other := by
  cases kind <;> cases other <;> rfl

theorem MethodBuffers.buffer_of_mark (both : MethodBuffers) (kind other : MethodKind) :
    ((both.mark kind).of other).buffer = (both.of other).buffer := by
  rw [of_mark]
  split <;> rfl

namespace GenState

variable {both : MethodBuffers}

theorem mem_methodList_iff (h : s.methods = some both) {x : MethodBuffer} :
    x ∈ s.methodList ↔ ∃ kind, both.of kind = x := by
  rw [methodList, h]
  constructor
  · intro hx
    rcases List.mem_pair.1 hx with rfl | rfl
    · exact ⟨.ofInstance, rfl⟩
    · exact ⟨.ofClass, rfl⟩
  · rintro ⟨kind, rfl⟩
    cases kind
    · exact List.mem_pair.2 (.inl rfl)
    · exact List.mem_pair.2 (.inr rfl)

/-- Methods of different kinds have different buffers. -/
theorem Ready.of_inj (hs : s.Ready A) (h : s.methods = some both) {other : MethodKind}
    (hbuffer : (both.of kind).buffer = (both.of other).buffer) : kind = other := by
  have happart := hs.apart
  rw [methodList, h] at happart
  have hne : both.instanceMethods.buffer ≠ both.classMethods.buffer := by simpa using happart
  cases kind <;> cases other
  · rfl
  · exact absurd hbuffer hne
  · exact absurd hbuffer.symm hne
  · rfl

theorem Ready.mark (hs : s.Ready A) (h : s.methods = some both) (kind : MethodKind) :
    { s with methods := some (both.mark kind) }.Ready A ∧
    s.Kept { s with methods := some (both.mark kind) } := by
  have hmem (other : MethodKind) : both.of other ∈ s.methodList :=
    (mem_methodList_iff h).2 ⟨other, rfl⟩
  have hbuffers : (methodList { s with methods := some (both.mark kind) }).map (·.buffer) =
      s.methodList.map (·.buffer) := by
    rw [methodList, methodList, h]
    cases kind <;> rfl
  refine ⟨⟨⟨⟨hs.sane.numbers.issues, hs.sane.numbers.waiting⟩, hs.sane.seen, hs.sane.faces,
    hs.sane.symbols,
    hs.sane.source⟩, hs.isInline, hs.refs, hs.fresh, hbuffers ▸ hs.apart, fun x hx => ?_⟩,
    rfl, fun _ _ h => h, fun h => h, Nat.le_refl _, fun x hx => ?_⟩
  · obtain ⟨other, rfl⟩ := (mem_methodList_iff rfl).1 hx
    rw [MethodBuffers.of_mark]
    split
    · exact ⟨(hs.methods _ (hmem other)).1, fun h => absurd h Bool.false_ne_true⟩
    · exact hs.methods _ (hmem other)
  · obtain ⟨other, rfl⟩ := (mem_methodList_iff rfl).1 hx
    refine ⟨both.of other, hmem other, (both.buffer_of_mark kind other).symm, ?_⟩
    rw [MethodBuffers.of_mark]
    split
    · exact fun h => absurd h Bool.false_ne_true
    · exact fun h => h

end GenState

theorem wp_startMethod (hs : s.Ready A) (hp : s.At p) :
    wp (Declaration.startMethod kind) (fun b u => ∃ x ∈ s.methodList, x.buffer = b ∧
      (u.Ready A ∧ Adds A b [] 0 s u) ∧ u.At ⟨b, p.frame, p.optional⟩) (fun _ _ => True) s := by
  unfold Declaration.startMethod Declaration.methodBuffers
  rw [bind_assoc, wp_bind, wp_get]
  refine (wp_bind ..).2 (wp_ofOption (fun both hboth => ?_) fun _ => trivial)
  have hmem : both.of kind ∈ s.methodList := (GenState.mem_methodList_iff hboth).2 ⟨kind, rfl⟩
  have hlt := (hs.methods _ hmem).1
  have hend (t : GenState) (ht : t.Ready A) (hst : Solely A (both.of kind).buffer [] 0 s t) :
      wp (do
          modify fun s => { s with methods := some (both.mark kind) }
          return (both.of kind).buffer : Gen Nat)
        (fun b u => ∃ x ∈ s.methodList, x.buffer = b ∧ (u.Ready A ∧ Adds A b [] 0 s u) ∧
          u.At ⟨b, p.frame, p.optional⟩) (fun _ _ => True) t := by
    obtain ⟨hready, hkept⟩ := ht.mark (hst.held.methods.trans hboth) kind
    have hadds := (hst.adds hlt).trans hs hlt (.of_kept hkept fun _ _ => rfl)
    refine (wp_bind ..).2 ((wp_modify _).2 ⟨_, hmem, rfl, ⟨hready, by simpa using hadds⟩, ?_⟩)
    refine ⟨hst.held.buffers ▸ hlt, fun x hx hbuffer => ?_, (hp.kept hst.held.kept).face⟩
    obtain ⟨other, rfl⟩ := (GenState.mem_methodList_iff rfl).1 hx
    rw [MethodBuffers.buffer_of_mark] at hbuffer
    obtain rfl := hs.of_inj hboth hbuffer
    rw [MethodBuffers.of_mark, if_pos rfl]
  cases hused : (both.of kind).isEmpty with
  | true => exact hend s hs (.of_contents (.refl s) rfl)
  | false =>
    have hat : s.At ⟨(both.of kind).buffer, p.frame, p.optional⟩ := by
      refine ⟨hlt, fun x hx hbuffer => ?_, hp.face⟩
      obtain ⟨other, rfl⟩ := (GenState.mem_methodList_iff hboth).1 hx
      obtain rfl := hs.of_inj hboth hbuffer
      exact hused
    have hchars : residue ",\n".toList = residue [] := by decide
    have hcomma : wp (Gen.text (both.of kind).buffer ",\n")
        (fun _ t => t.Ready A ∧ Solely A (both.of kind).buffer [] 0 s t) (fun _ _ => True) s :=
      wp_emit_here hs hat rfl rfl fun _ => .of_residue hchars
    exact hcomma.bind fun _ t ht => hend t ht.1 ht.2

theorem Puts.startMethod {k : Nat → Gen β} (hk : ∀ c, Puts A ⟨c, p.frame, p.optional⟩ (k c) [] n) :
    Puts A p (Declaration.startMethod kind >>= k) [] n := by
  intro s hs hp
  refine (wp_startMethod hs hp).bind fun c t ht => ?_
  obtain ⟨x, hx, rfl, ⟨hready, hadds⟩, hat⟩ := ht
  refine (hk _ t hready hat).imp fun _ u hu => ⟨hu.1, ?_⟩
  have hall := hadds.trans hs (hs.methods x hx).1 hu.2
  rw [List.append_nil, zero_add] at hall
  exact hall.move (List.mem_map_of_mem hx)

end ObjectiveJ
