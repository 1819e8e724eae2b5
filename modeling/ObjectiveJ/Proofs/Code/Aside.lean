import ObjectiveJ.Proofs.Code.Enclose

/-!
# Code that is written aside

The receiver of a message is written into a buffer of its own and then put where it belongs, if need
be several times. `GenState.Holds A b c m t` says what the buffer holds, and
`Splices A p b c m w n step W N` is like `Then`, with such a buffer at hand.
-/

namespace ObjectiveJ

open Gen Text

variable {A : Account} {p : Spot} {b q : Nat} {c : Code} {w w' W : List Char}
  {m n n' N : Multiset Tree} {s t u : GenState} {α β : Type}

/-- A buffer that holds the code of some nodes, with nested brackets. -/
structure GenState.Holds (A : Account) (b : Nat) (c : Code) (m : Multiset Tree) (t : GenState) :
    Prop where
  lt : b < t.buffers
  contents : t.contents b = c.flatten
  faithful : c.Faithful
  brackets : A.clear → SameBrackets c.chars []
  tally : A.once → t.diagnostics.hasErrors = false → c.tally A = m

/-- A step that completes what has been added, and may use a buffer that is not for methods. -/
def Splices (A : Account) (p : Spot) (b : Nat) (c : Code) (m : Multiset Tree) (w : List Char)
    (n : Multiset Tree) (step : Gen α) (W : List Char) (N : Multiset Tree) : Prop :=
  ∀ s t, s.Ready A → s.At p → s.buffers ≤ b → t.Ready A → Adds A p.buffer w n s t →
    t.Holds A b c m → wp step (fun _ u => u.Ready A ∧ Adds A p.buffer W N s u) (fun _ _ => True) t

theorem GenState.Holds.adds (h : t.Holds A b c m) (hs : s.Ready A) (hb : s.buffers ≤ b)
    (hq : q < s.buffers) (hst : s.Kept t) (htu : Adds A q w n t u) : u.Holds A b c m where
  lt := Nat.lt_of_lt_of_le h.lt htu.kept.buffers
  contents := by
    obtain ⟨d, hd⟩ := htu.code
    have hother : d b = .nil := hd.elsewhere b (Nat.ne_of_gt (Nat.lt_of_lt_of_le hq hb)) fun hmem =>
      Nat.not_lt.2 hb (hs.lt_of_mem (hst.mem_methods hmem))
    rw [hd.contents b h.lt, hother, h.contents]
    exact List.append_nil _
  faithful := h.faithful
  brackets := h.brackets
  tally honce herrors := h.tally honce (htu.kept.noErrors herrors)

theorem GenState.Holds.splice (h : t.Holds A b c m) (ht : t.Ready A) (hp : t.At p) :
    wp (Gen.splice p.buffer b) (fun _ u => u.Ready A ∧ Solely A p.buffer [] m t u)
      (fun _ _ => True) t := by
  refine (wp_emitted _ t).imp fun _ u hu => ?_
  subst hu
  have hexec : t.contents.exec (.splice p.buffer b) = t.contents.append p.buffer c.flatten := by
    rw [Contents.exec, h.contents]
  exact ⟨ht.emitted hp.buffer hp.used hexec, .push t _, c, (t.contents_push _).trans hexec,
    h.faithful, h.brackets, h.tally⟩

/-- Code that is put aside is no code at the place. -/
theorem Adds.aside (hs : s.Ready A) (hq : q < s.buffers) (hb : s.buffers ≤ b)
    (hst : Adds A q w n s t) (hholds : t.Holds A b .nil 0) (htu : Adds A b [] N t u) :
    ∃ c n' m, (A.once → n' + m = N) ∧ Adds A q w (n + n') s u ∧ u.Holds A b c m := by
  obtain ⟨d, hd⟩ := hst.code
  obtain ⟨e, he⟩ := htu.code
  have hold (r : Nat) (hr : r < s.buffers) : r ≠ b := Nat.ne_of_lt (Nat.lt_of_lt_of_le hr hb)
  have hfills (n' : Multiset Tree) (hn' : A.once → u.diagnostics.hasErrors = false →
      ∑ r ∈ Finset.range s.buffers, (e r).tally A = n') : Adds A q w (n + n') s u := by
    refine ⟨hst.kept.trans htu.kept, fun r => if r = b then .nil else d r ++ e r, fun r hr => ?_,
      fun r => ?_, fun r hr hmethod => ?_, fun hclear => ?_, fun honce herrors => ?_⟩
    · rw [if_neg (hold r hr), he.contents r (Nat.lt_of_lt_of_le hr hst.kept.buffers),
        hd.contents r hr, List.append_assoc, Code.flatten_append]
    · split
      · trivial
      · exact (hd.faithful r).append (he.faithful r)
    · split
      · rfl
      · rename_i hrb
        rw [hd.elsewhere r hr hmethod,
          he.elsewhere r hrb fun hmem => hmethod (hst.kept.mem_methods hmem)]
        rfl
    · obtain ⟨hd, hd'⟩ := hd.brackets hclear
      obtain ⟨-, he⟩ := he.brackets hclear
      refine ⟨?_, fun r hr => ?_⟩
      · rw [if_neg (hold q hq), Code.chars_append]
        simpa using hd.append (he q (hold q hq))
      · split
        · exact .refl _
        · rename_i hrb
          rw [Code.chars_append]
          exact (hd' r hr).append (he r hrb)
    · rw [Finset.sum_congr rfl fun r hr => by
          rw [if_neg (hold r (Finset.mem_range.1 hr)), Code.tally_append], Finset.sum_add_distrib,
        hd.tally honce (htu.kept.noErrors herrors), hn' honce herrors]
  have hlast : u.contents b = (e b).flatten := by
    rw [he.contents b hholds.lt, hholds.contents]
    rfl
  by_cases herrors : u.diagnostics.hasErrors = false
  · refine ⟨e b, ∑ r ∈ Finset.range s.buffers, (e r).tally A, (e b).tally A, fun honce => ?_,
      hfills _ fun _ _ => rfl, ?_⟩
    · -- of the buffers that are new only this one may have been written to
      have hb' : b ∉ Finset.range s.buffers := fun h => Nat.not_lt.2 hb (Finset.mem_range.1 h)
      rw [add_comm, ← Finset.sum_insert (f := fun r => (e r).tally A) hb', ← he.tally honce herrors]
      refine Finset.sum_subset (fun r hr => ?_) fun r _ hr => ?_
      · rcases Finset.mem_insert.1 hr with rfl | hr
        · exact Finset.mem_range.2 hholds.lt
        · exact Finset.range_mono hst.kept.buffers hr
      · rw [Finset.mem_insert, Finset.mem_range, not_or] at hr
        rw [he.elsewhere r hr.1 fun hmem => hr.2 (hs.lt_of_mem (hst.kept.mem_methods hmem))]
        rfl
    · exact ⟨Nat.lt_of_lt_of_le hholds.lt htu.kept.buffers, hlast, he.faithful b,
        fun hclear => (he.brackets hclear).1, fun _ _ => rfl⟩
  · -- with errors nothing is counted
    refine ⟨e b, 0, N, fun _ => zero_add _, hfills _ fun _ h => absurd h herrors, ?_⟩
    exact ⟨Nat.lt_of_lt_of_le hholds.lt htu.kept.buffers, hlast, he.faithful b,
      fun hclear => (he.brackets hclear).1, fun _ h => absurd h herrors⟩

namespace Splices

variable {step : Gen α} {k : α → Gen β}

theorem last_of (hm : Puts A p step w' n') (hW : A.clear → SameBrackets (w ++ w') W)
    (hN : A.once → n + n' = N) : Splices A p b c m w n step W N := fun _ t hs hp _ ht hadds _ =>
  (hm t ht (hp.kept hadds.kept)).imp fun _ _ hu =>
    ⟨hu.1, (hadds.trans hs hp.buffer hu.2).conv hW fun honce _ => hN honce⟩

theorem last (hm : Puts A p step w' n') (hW : residue (w ++ w') = residue W)
    (hN : A.once → n + n' = N) : Splices A p b c m w n step W N :=
  last_of hm (fun _ => .of_residue hW) hN

theorem conv (h : Splices A p b c m w n step w' n') (hW : A.clear → SameBrackets w' W)
    (hN : A.once → n' = N) : Splices A p b c m w n step W N := fun s t hs hp hb ht hadds hholds =>
  (h s t hs hp hb ht hadds hholds).imp fun _ _ hu => ⟨hu.1, hu.2.conv hW fun honce _ => hN honce⟩

theorem bind_puts {x y : List Char} {i j : Multiset Tree} (h : Splices A p b c m w n step x i)
    (hk : ∀ a, Puts A p (k a) y j) (hW : A.clear → SameBrackets (x ++ y) W)
    (hN : A.once → i + j = N) :
    Splices A p b c m w n (step >>= k) W N := fun s t hs hp hb ht hadds hholds =>
  (h s t hs hp hb ht hadds hholds).bind fun a u hu =>
    (hk a u hu.1 (hp.kept hu.2.kept)).imp fun _ _ hv =>
      ⟨hv.1, (hu.2.trans hs hp.buffer hv.2).conv hW fun honce _ => hN honce⟩

theorem bind (hm : ∀ t : GenState, t.Ready A → t.At p → t.Holds A b c m →
      wp step (fun _ u => u.Ready A ∧ Adds A p.buffer w' n' t u) (fun _ _ => True) t)
    (hk : ∀ a, Splices A p b c m (w ++ w') (n + n') (k a) W N) :
    Splices A p b c m w n (step >>= k) W N := fun s t hs hp hb ht hadds hholds =>
  (hm t ht (hp.kept hadds.kept) hholds).bind fun a u hu =>
    hk a s u hs hp hb hu.1 (hadds.trans hs hp.buffer hu.2)
      (hholds.adds hs hb hp.buffer hadds.kept hu.2)

theorem put (hm : Puts A p step w' n') (hk : ∀ a, Splices A p b c m (w ++ w') (n + n') (k a) W N) :
    Splices A p b c m w n (step >>= k) W N := bind (fun t ht hp _ => hm t ht hp) hk

theorem rest_gives {P : α → Prop} (hm : Rests A step) (hP : Gives A step P)
    (hk : ∀ a, (A.clear → P a) → Splices A p b c m w n (k a) W N) :
    Splices A p b c m w n (step >>= k) W N := by
  intro s t hs hp hb ht hadds hholds
  have hstep := (hm.puts t ht (hp.kept hadds.kept)).and (hP.known t)
  refine (wp_bind step k).2 (hstep.mono (fun a u hu => ?_) fun _ _ h => h.1)
  have hall := hadds.trans hs hp.buffer hu.1.2
  rw [List.append_nil, add_zero] at hall
  exact hk a hu.2 s u hs hp hb hu.1.1 hall (hholds.adds hs hb hp.buffer hadds.kept hu.1.2)

theorem look {k : GenState → Gen β} (hk : ∀ s, s.Ready A → Splices A p b c m w n (k s) W N) :
    Splices A p b c m w n (MonadState.get >>= k) W N := fun s t hs hp hb ht hadds hholds =>
  (wp_bind ..).2 (hk t ht s t hs hp hb ht hadds hholds)

theorem ofOption {x : Option α} (hk : ∀ a, x = some a → Splices A p b c m w n (k a) W N) :
    Splices A p b c m w n (Gen.ofOption x >>= k) W N := fun s t hs hp hb ht hadds hholds =>
  (wp_bind ..).2 (wp_ofOption (fun a ha => hk a ha s t hs hp hb ht hadds hholds) fun _ => trivial)

theorem splice {k : Unit → Gen β} (hk : Splices A p b c m w (n + m) (k ()) W N) :
    Splices A p b c m w n (Gen.splice p.buffer b >>= k) W N := by
  have hsplice (t : GenState) (ht : t.Ready A) (hp : t.At p) (hholds : t.Holds A b c m) :
      wp (Gen.splice p.buffer b) (fun _ u => u.Ready A ∧ Adds A p.buffer [] m t u)
        (fun _ _ => True) t :=
    (hholds.splice ht hp).imp fun _ _ hu => ⟨hu.1, hu.2.adds hp.buffer⟩
  exact bind hsplice fun _ => by rwa [List.append_nil]

theorem fill_gives {M : Multiset Tree} {P : α → Prop}
    (hm : Puts A ⟨b, p.frame, p.optional⟩ step [] M) (hP : Gives A step P)
    (hk : ∀ a c n' m, (A.clear → P a) → (A.once → n' + m = M) →
      Splices A p b c m w (n + n') (k a) W N) :
    Splices A p b .nil 0 w n (step >>= k) W N := by
  intro s t hs hp hb ht hadds hholds
  have hat : t.At ⟨b, p.frame, p.optional⟩ := by
    refine ⟨hholds.lt, fun x hx hbuffer => ?_, (hp.kept hadds.kept).face⟩
    have hmem := hadds.kept.mem_methods (List.mem_map_of_mem hx)
    exact absurd (hs.lt_of_mem hmem) (Nat.not_lt.2 (hbuffer ▸ hb))
  refine (wp_bind step k).2
    (((hm t ht hat).and (hP.known t)).mono (fun a u hu => ?_) fun _ _ h => h.1)
  obtain ⟨c, n', m, hsum, hadds, hholds⟩ := Adds.aside hs hp.buffer hb hadds hholds hu.1.2
  exact hk a c n' m hu.2 hsum s u hs hp hb hu.1.1 hadds hholds

theorem fill {M : Multiset Tree} (hm : Puts A ⟨b, p.frame, p.optional⟩ step [] M)
    (hk : ∀ a c n' m, (A.once → n' + m = M) → Splices A p b c m w (n + n') (k a) W N) :
    Splices A p b .nil 0 w n (step >>= k) W N :=
  fill_gives hm (.any step) fun a c n' m _ => hk a c n' m

end Splices

theorem GenState.Ready.newBuffer (hs : s.Ready A) :
    { s with buffers := s.buffers + 1 }.Ready A ∧ s.Kept { s with buffers := s.buffers + 1 } where
  left := ⟨⟨⟨hs.sane.numbers.issues, hs.sane.numbers.waiting⟩, hs.sane.seen, hs.sane.faces,
      hs.sane.symbols,
      hs.sane.source⟩,
    hs.isInline, hs.refs, fun r hr => hs.fresh r (Nat.le_of_succ_le hr), hs.apart,
    fun x hx => ⟨Nat.lt_succ_of_lt (hs.methods x hx).1, (hs.methods x hx).2⟩⟩
  right := ⟨rfl, fun _ _ h => h, fun h => h, Nat.le_succ _, fun x hx => ⟨x, hx, rfl, fun h => h⟩⟩

theorem Puts.newBuffer {k : Nat → Gen β} (hk : ∀ b, Splices A p b .nil 0 [] 0 (k b) W N) :
    Puts A p (Gen.newBuffer >>= k) W N := by
  intro s hs hp
  obtain ⟨hready, hkept⟩ := hs.newBuffer
  refine (wp_bind ..).2 (hk s.buffers s _ hs hp (Nat.le_refl _) hready
    (.of_kept hkept fun _ _ => rfl) ?_)
  exact ⟨Nat.lt_succ_self _, hs.fresh _ (Nat.le_refl _), trivial, fun _ => .refl _, fun _ _ => rfl⟩

end ObjectiveJ
