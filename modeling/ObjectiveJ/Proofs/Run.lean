import ObjectiveJ.Generate.State

/-!
# What holds after a step of the generator

A step of the generator starts in a state and comes to a result or to a failure, in another state.
`Gen.wp m Q E s` says that from `s` a result leads to `Q` and a failure to `E`. It goes through
sequences of steps from the front (`wp_bind`), so a fact about a form of nodes is put together from
facts about the steps that the form takes, and the forms themselves are opened once.

The lemmas below are the facts about the basic steps, in the order in which these are defined.
-/

namespace ObjectiveJ

/-! ### Changes of arrays and frames -/

/-- What is changed at one place may be left out everywhere before. -/
theorem map_modify {α β : Type} {h : α → β} {g : α → α} {k : β → β} (hg : ∀ a, h (g a) = k (h a))
    (xs : Array α) (i : Nat) : (xs.modify i g).map h = (xs.map h).modify i k := by
  apply Array.ext
  · simp
  · intro j _ _
    simp only [Array.getElem_map, Array.getElem_modify]
    split
    · exact hg _
    · rfl

theorem map_modify_same {α β : Type} {h : α → β} {g : α → α} (hg : ∀ a, h (g a) = h a)
    (xs : Array α) (i : Nat) : (xs.modify i g).map h = xs.map h := by
  rw [map_modify (k := id) hg]
  exact Array.ext (by simp) fun _ _ _ => by simp [Array.getElem_modify]

/-- What a frame hands on at its end, and to which frame. -/
def Frame.handed? (f : Frame) : Option (FrameId × List (Key × Value × List IvarRef)) :=
  f.parent.map fun up => (up, f.ivarRefs.entries.entries)

/-- Remembers references one after another. -/
def Frames.addAll (fs : Frames) (id : FrameId) (entries : List (Key × Value × List IvarRef)) :
    Frames :=
  entries.foldl (fun fs e => fs.addIvarRefs id e.1 e.2.1 e.2.2) fs

theorem Frames.copyIvarRefs_eq (fs : Frames) (id : FrameId) : fs.copyIvarRefs id =
    ((fs.frame? id).bind Frame.handed?).elim fs fun p => fs.addAll p.1 p.2 := by
  cases hf : fs.frame? id with
  | none => simp only [copyIvarRefs, hf, Option.bind_none, Option.elim_none]
  | some f =>
    obtain ⟨kind, parent⟩ := f
    cases parent with
    | none => simp only [copyIvarRefs, hf, Option.bind_some, Frame.handed?, Option.map_none,
        Option.elim_none]
    | some up =>
      simp only [copyIvarRefs, hf, Option.bind_some, Frame.handed?, Option.map_some,
        Option.elim_some]
      rfl

/-- What is handed on to the frame around a frame is added bit by bit. -/
theorem Frames.copyIvarRefs_induction {P : Frames → Prop} {fs : Frames} {id : FrameId} (hfs : P fs)
    (h : ∀ gs f up e, fs.frame? id = some f → f.parent = some up →
      e ∈ f.ivarRefs.entries.entries → P gs → P (gs.addIvarRefs up e.1 e.2.1 e.2.2)) :
    P (fs.copyIvarRefs id) := by
  unfold copyIvarRefs
  split
  · rename_i hf
    exact List.foldlRecOn _ _ hfs fun gs hgs e he => h gs _ _ e hf rfl he hgs
  · exact hfs

/-- A frame that ends changes what is parked, and no more. -/
theorem Diagnostics.settleAll_induction {P : Frames → Prop} {frame : FrameId}
    (h : ∀ gs parked, P gs → P (gs.setParked frame parked)) (symbols : Symbols) {fs : Frames}
    (hfs : P fs) (d : Diagnostics) (parked : List Parked) :
    P (settleAll symbols frame fs d parked).1 := by
  induction parked generalizing fs d with
  | nil => exact hfs
  | cons p rest ih =>
    rw [settleAll]
    split
    · exact ih hfs d
    split
    · exact hfs
    split
    · exact ih (h _ _ hfs) _
    · exact ih hfs d

def GenState.settled (s : GenState) (frame : FrameId) : GenState :=
  { s with
    frames := (s.diagnostics.settle s.symbols s.frames frame).1
    diagnostics := (s.diagnostics.settle s.symbols s.frames frame).2.1 }

namespace Gen

variable {α β : Type}

/-- What holds after a step: `Q` of the result and the state, or `E` of the failure and the
state. -/
def wp (m : Gen α) (Q : α → GenState → Prop) (E : Failure → GenState → Prop) (s : GenState) :
    Prop :=
  match m.run.run s with
  | (.ok a, t) => Q a t
  | (.error e, t) => E e t

variable {Q Q' : α → GenState → Prop} {E E' : Failure → GenState → Prop} {s : GenState}

@[simp] theorem wp_pure (a : α) : wp (pure a) Q E s ↔ Q a s := Iff.rfl

@[simp] theorem wp_throw (e : Failure) : wp (throw e : Gen α) Q E s ↔ E e s := Iff.rfl

theorem run_bind (m : Gen β) (f : β → Gen α) (s : GenState) :
    (m >>= f).run.run s =
      match m.run.run s with
      | (.ok b, t) => (f b).run.run t
      | (.error e, t) => (.error e, t) := by
  simp only [ExceptT.run, StateT.run, bind, ExceptT.bind, ExceptT.mk, StateT.bind,
    ExceptT.bindCont]
  rcases m s with ⟨_ | b, t⟩ <;> rfl

theorem run_get_bind (k : GenState → Gen α) (s : GenState) :
    (get >>= k).run.run s = (k s).run.run s := rfl

@[simp] theorem wp_bind (m : Gen β) (f : β → Gen α) :
    wp (m >>= f) Q E s ↔ wp m (fun b t => wp (f b) Q E t) E s := by
  unfold wp
  rw [run_bind]
  rcases m.run.run s with ⟨_ | b, t⟩ <;> rfl

@[simp] theorem wp_get {Q : GenState → GenState → Prop} : wp get Q E s ↔ Q s s := Iff.rfl

@[simp] theorem wp_modify {Q : PUnit → GenState → Prop} (f : GenState → GenState) :
    wp (modify f) Q E s ↔ Q ⟨⟩ (f s) := Iff.rfl

@[simp] theorem wp_set {Q : PUnit → GenState → Prop} (t : GenState) :
    wp (set t) Q E s ↔ Q ⟨⟩ t := Iff.rfl

@[simp] theorem wp_modifyGet (f : GenState → α × GenState) :
    wp (modifyGet f) Q E s ↔ Q (f s).1 (f s).2 := Iff.rfl

@[simp] theorem wp_discard {Q : PUnit → GenState → Prop} (m : Gen α) :
    wp (discard m) Q E s ↔ wp m (fun _ => Q ⟨⟩) E s := by
  change wp (Functor.mapConst PUnit.unit m) Q E s ↔ _
  rw [map_const]
  change wp (m >>= fun _ => pure PUnit.unit) Q E s ↔ _
  simp only [wp_bind, wp_pure]

theorem wp_ofOption {o : Option α} (hsome : ∀ a, o = some a → Q a s)
    (hnone : o = none → E .incomplete s) : wp (ofOption o) Q E s := by
  cases o with
  | none => exact hnone rfl
  | some a => exact hsome a rfl

theorem wp.mono {m : Gen α} (h : wp m Q E s) (hQ : ∀ a t, Q a t → Q' a t)
    (hE : ∀ e t, E e t → E' e t) : wp m Q' E' s := by
  unfold wp at h ⊢
  split
  · rename_i a t hm
    rw [hm] at h
    exact hQ a t h
  · rename_i e t hm
    rw [hm] at h
    exact hE e t h

theorem wp.imp {m : Gen α} (h : wp m Q E s) (hQ : ∀ a t, Q a t → Q' a t) : wp m Q' E s :=
  h.mono hQ fun _ _ h => h

/-- What follows a step goes on from what is known after it. -/
theorem wp.bind {m : Gen β} {k : β → Gen α} {R : β → GenState → Prop} (h : wp m R E s)
    (hk : ∀ b t, R b t → wp (k b) Q E t) : wp (m >>= k) Q E s :=
  (wp_bind m k).2 (h.imp hk)

theorem wp.and {m : Gen α} (h : wp m Q E s) (h' : wp m Q' E' s) :
    wp m (fun a t => Q a t ∧ Q' a t) (fun e t => E e t ∧ E' e t) s := by
  unfold wp at h h' ⊢
  split
  · rename_i a t hm
    rw [hm] at h h'
    exact ⟨h, h'⟩
  · rename_i e t hm
    rw [hm] at h h'
    exact ⟨h, h'⟩

theorem wp.run {m : Gen α} (h : wp m Q E s) :
    wp m (fun a t => Q a t ∧ m.run.run s = (.ok a, t)) E s := by
  unfold wp at h ⊢
  split
  · rename_i a t hm
    rw [hm] at h
    exact ⟨h, hm⟩
  · rename_i e t hm
    rwa [hm] at h

theorem wp.ok {m : Gen α} {a : α} {t : GenState} (h : wp m Q E s)
    (hm : m.run.run s = (.ok a, t)) : Q a t := by
  unfold wp at h
  rwa [hm] at h

theorem wp.error {m : Gen α} {e : Failure} {t : GenState} (h : wp m Q E s)
    (hm : m.run.run s = (.error e, t)) : E e t := by
  unfold wp at h
  rwa [hm] at h

theorem run_of_toOption {m : Gen Unit} (h : (m.run.run s).1.toOption = some ()) :
    m.run.run s = (.ok (), (m.run.run s).2) := by
  cases hresult : (m.run.run s).1 with
  | error e =>
    rw [hresult] at h
    cases h
  | ok => exact Prod.ext hresult rfl

theorem wp_of_forall {m : Gen α} (hQ : ∀ a t, Q a t) (hE : ∀ e t, E e t) : wp m Q E s := by
  unfold wp
  split
  · exact hQ _ _
  · exact hE _ _

theorem run_emit (i : Instr) (hs : s.settings.stop = none) :
    (emit i).run.run s = (.ok (), { s with trace := s.trace.push i }) := by
  change (if s.settings.stop = some s.trace.size then _ else _) = _
  rw [hs]
  rfl

theorem wp_emit_iff {Q : Unit → GenState → Prop} (i : Instr) (hs : s.settings.stop = none) :
    wp (emit i) Q E s ↔ Q () { s with trace := s.trace.push i } := by
  rw [wp, run_emit i hs]

/-- An instruction is written, unless the walk stops before it. -/
theorem wp_instr {Q : Unit → GenState → Prop} (i : Instr)
    (hQ : Q () { s with trace := s.trace.push i }) (hE : E .incomplete s) : wp (emit i) Q E s := by
  change wp (ExceptT.mk fun s => if s.settings.stop = some s.trace.size then
    (.error .incomplete, s) else (.ok (), { s with trace := s.trace.push i })) _ _ s
  by_cases hstop : s.settings.stop = some s.trace.size
  · simpa only [wp, ExceptT.run, ExceptT.mk, StateT.run, hstop, if_true] using hE
  · simpa only [wp, ExceptT.run, ExceptT.mk, StateT.run, hstop, if_false] using hQ

theorem run_settle (frame : FrameId) (s : GenState) : (settle frame).run.run s =
    (if (s.diagnostics.settle s.symbols s.frames frame).2.2 then .ok () else .error .incomplete,
      s.settled frame) := by
  unfold settle GenState.settled
  rw [run_get_bind]
  generalize s.diagnostics.settle s.symbols s.frames frame = settled
  obtain ⟨frames, diagnostics, judged⟩ := settled
  cases judged <;> rfl

theorem wp_settle {Q : Unit → GenState → Prop} (frame : FrameId) (hQ : Q () (s.settled frame))
    (hE : E .incomplete (s.settled frame)) : wp (settle frame) Q E s := by
  unfold wp
  rw [run_settle]
  cases (s.diagnostics.settle s.symbols s.frames frame).2.2
  · exact hE
  · exact hQ

end Gen

end ObjectiveJ
