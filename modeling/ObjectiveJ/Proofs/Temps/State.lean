import ObjectiveJ.Proofs.Code.Contents
import ObjectiveJ.Proofs.Temps.Frames

/-!
# What steps write and which temps they take

`Spent` is the law of steps that come to a result: what is written divides into visits, its temps
are numbered from those in use on, and the frame that owns the temps remembers how many there were.
It goes on from one step to the next. Steps that write nothing and leave temps alone are `Quiet`,
and so is every check.
-/

namespace ObjectiveJ

open Gen

variable {ms : List Mark} {fs : Frames} {s : GenState}

/-- Each `self.` that a frame remembers is an empty piece in the trace. -/
def Frame.RefsIn (f : Frame) (ms : List Mark) : Prop :=
  ∀ e ∈ f.ivarRefs.entries.entries, ∀ r ∈ e.2.2, ms[r.index]? = some (.piece (.text ""))

def Frames.RefsIn (fs : Frames) (ms : List Mark) : Prop :=
  ∀ id f, fs.frame? id = some f → f.RefsIn ms

def GenState.marks (s : GenState) : List Mark := s.trace.toList.map Instr.mark

theorem Frame.RefsIn.append {f : Frame} (h : f.RefsIn ms) (ns : List Mark) :
    f.RefsIn (ms ++ ns) := fun e he r hr =>
  (List.getElem?_append_left (List.getElem?_eq_some_iff.1 (h e he r hr)).1).trans (h e he r hr)

theorem Frames.RefsIn.append (h : fs.RefsIn ms) (ns : List Mark) :
    fs.RefsIn (ms ++ ns) := fun id f hf => (h id f hf).append ns

theorem Frames.RefsIn.modify (h : fs.RefsIn ms) {id : FrameId} {g : Frame → Frame}
    (hg : ∀ f, f.RefsIn ms → (g f).RefsIn ms) : (fs.modify id g).RefsIn ms := by
  intro id' f hf
  rw [frame?_modify] at hf
  split at hf
  · obtain ⟨f', hf', rfl⟩ := Option.map_eq_some_iff.1 hf
    exact hg f' (h id' f' hf')
  · exact h id' f hf

theorem Frames.RefsIn.new (h : fs.RefsIn ms) {f : Frame} (hf : f.ivarRefs = {}) :
    (fs.new f).2.RefsIn ms := by
  intro id g hg
  rw [frame?_new] at hg
  split at hg
  · cases hg
    intro e he
    rw [hf] at he
    cases he
  · exact h id g hg

theorem Frames.RefsIn.addIvarRefs (h : fs.RefsIn ms) (id : FrameId) (key : Key) (name : Value)
    {refs : List IvarRef} (hrefs : ∀ r ∈ refs, ms[r.index]? = some (.piece (.text ""))) :
    (fs.addIvarRefs id key name refs).RefsIn ms := by
  refine h.modify fun f hf e he r hr => ?_
  rcases Table.mem_setEntry he with he | rfl
  · exact hf e he r hr
  · rcases List.mem_append.1 hr with hr | hr
    · rw [NameTable.get?] at hr
      cases hold : f.ivarRefs.entries.get? key with
      | none => simp [hold] at hr
      | some old =>
        rw [hold] at hr
        exact hf (key, old) (Table.mem_of_lookup hold) r hr
    · exact hrefs r hr

/-! ### Steps that write nothing -/

/-- Nothing is written but what is taken back, and no temp is taken. -/
structure Quiet (s t : GenState) : Prop where
  temps : t.frames.temps = s.frames.temps
  settings : t.settings = s.settings
  refs : s.frames.RefsIn s.marks → t.frames.RefsIn t.marks ∧ t.marks = s.marks
  contents : s.frames.RefsIn s.marks → t.contents = s.contents

theorem Quiet.refl (s : GenState) : Quiet s s := ⟨rfl, rfl, fun h => ⟨h, rfl⟩, fun _ => rfl⟩

theorem Quiet.trans {t u : GenState} (h : Quiet s t) (h' : Quiet t u) : Quiet s u where
  temps := h'.temps.trans h.temps
  settings := h'.settings.trans h.settings
  refs hs := ⟨(h'.refs (h.refs hs).1).1, (h'.refs (h.refs hs).1).2.trans (h.refs hs).2⟩
  contents hs := (h'.contents (h.refs hs).1).trans (h.contents hs)

def Quiets {α : Type} (m : Gen α) : Prop := ∀ s, wp m (fun _ t => Quiet s t) (fun _ _ => True) s

variable {α β : Type}

theorem Quiets.bind {m : Gen α} {k : α → Gen β} (hm : Quiets m) (hk : ∀ a, Quiets (k a)) :
    Quiets (m >>= k) := fun s =>
  (hm s).bind fun a t ht => (hk a t).imp fun _ _ hu => ht.trans hu

theorem Quiets.modifyFrame {id : GenState → FrameId} {g : GenState → Frame → Frame}
    (htemps : ∀ s f, (g s f).temps = f.temps)
    (hrefs : ∀ s f, ∀ e ∈ (g s f).ivarRefs.entries.entries, e ∈ f.ivarRefs.entries.entries) :
    Quiets (modify fun s => { s with frames := s.frames.modify (id s) (g s) } : Gen Unit) := by
  intro s
  refine ⟨Frames.temps_modify (htemps s), rfl, fun hs => ⟨hs.modify fun f hf e he => ?_, rfl⟩,
    fun _ => rfl⟩
  exact hf e (hrefs s f e he)

theorem GenState.marks_push (s : GenState) (i : Instr) :
    { s with trace := s.trace.push i }.marks = s.marks ++ [i.mark] := by
  simp [marks]

theorem Quiets.get : Quiets (get : Gen GenState) := fun s => Quiet.refl s

theorem Quiets.look {k : GenState → Gen β} (hk : ∀ s, Quiets (k s)) :
    Quiets (MonadState.get >>= k) :=
  Quiets.get.bind hk

theorem quiets_checks : Checks @Quiets where
  pure _ s := Quiet.refl s
  incomplete _ := trivial
  throw _ _ := trivial
  bind := Quiets.bind
  look _ := Quiets.look
  diagnose _ _ := ⟨rfl, rfl, fun h => ⟨h, rfl⟩, fun _ => rfl⟩
  declare _ _ _ := Quiets.modifyFrame (fun _ _ => rfl) fun _ _ _ h => h
  park _ _ _ _ _ := Quiets.modifyFrame (fun _ _ => rfl) fun _ _ _ h => h

/-! ### Taking back -/

theorem marks_retract {index : Nat} (h : s.marks[index]? = some (.piece (.text ""))) :
    wp (retract index) (fun _ t => t.marks = s.marks) (fun _ _ => True) s := by
  apply List.ext_getElem?
  intro i
  have hmarks (t : GenState) : t.marks[i]? = t.trace[i]?.map Instr.mark := by
    simp [GenState.marks]
  rw [hmarks, hmarks]
  simp only [Array.getElem?_modify]
  split
  · rename_i hi
    subst hi
    rw [hmarks] at h
    cases htrace : s.trace[index]? with
    | none => rfl
    | some instr =>
      rw [htrace, Option.map_some, Option.some.injEq] at h
      cases instr with
      | text buffer value location =>
        simp only [Option.map_some, h]
        rfl
      | _ => rfl
  · rfl

theorem Instr.isSlight_of_mark {i : Instr} (h : i.mark = .piece (.text "")) :
    i.isSlight = true := by
  cases i with
  | text buffer value location =>
    cases value with
    | data j =>
      cases j with
      | str s =>
        simp only [mark, Mark.piece.injEq, Piece.text.injEq] at h
        split at h
        · rename_i hself
          simp [isSlight, hself]
        · simp [isSlight, h]
      | _ => cases h
    | _ => cases h
  | hook buffer type key ancestry =>
    cases key with
    | plain key =>
      simp only [mark] at h
      split at h
      · cases h
      · split at h <;> cases h
    | bracket => cases h
  | _ => cases h

theorem contents_retract {index : Nat} (h : s.marks[index]? = some (.piece (.text ""))) :
    wp (retract index) (fun _ t => t.contents = s.contents) (fun _ _ => True) s := by
  change Contents.run _ (s.trace.modify index _).toList = Contents.run _ s.trace.toList
  rw [Array.toList_modify]
  refine Contents.run_modify _ _ _ fun i hi => ?_
  have hmark : i.mark = .piece (.text "") := by
    simpa [GenState.marks, hi] using h
  cases i with
  | text buffer value location => exact .inr ⟨Instr.isSlight_of_mark hmark, rfl⟩
  | _ => exact .inl rfl

theorem quiet_takeBack (name : Value) (refs : List IvarRef)
    (h : s.frames.RefsIn s.marks → ∀ r ∈ refs, s.marks[r.index]? = some (.piece (.text "")))
    (t : GenState) (ht : Quiet s t) :
    wp (Check.takeBack name refs) (fun _ t => Quiet s t) (fun _ _ => True) t := by
  induction refs generalizing t with
  | nil => exact ht
  | cons ref rest ih =>
    have hrest := ih fun hs r hr => h hs r (.tail _ hr)
    have hretract : wp (retract ref.index) (fun _ u => Quiet s u) (fun _ _ => True) t := by
      have hpoints (hs : s.frames.RefsIn s.marks) :
          t.marks[ref.index]? = some (.piece (.text "")) := by
        rw [(ht.refs hs).2]
        exact h hs ref (.head _)
      refine ⟨ht.temps, ht.settings, fun hs => ?_, fun hs => ?_⟩
      · obtain ⟨hrefs, hmarks⟩ := ht.refs hs
        have hsame := marks_retract (hpoints hs)
        exact ⟨hsame.symm ▸ hrefs, hsame.trans hmarks⟩
      · exact (contents_retract (hpoints hs)).trans (ht.contents hs)
    refine hretract.bind fun _ u hu => ?_
    refine (quiets_checks.warns _ u).bind fun on x hx => ?_
    split
    · refine (quiets_checks.warning _ _ x).bind fun _ y hy => ?_
      exact hrest y ((hu.trans hx).trans hy)
    · exact hrest x (hu.trans hx)

theorem Frames.RefsIn.of_mem_ivarRefs (h : fs.RefsIn ms) {id : FrameId} {key : Key} {r : IvarRef}
    (hr : r ∈ fs.ivarRefs id key) : ms[r.index]? = some (.piece (.text "")) := by
  rw [ivarRefs] at hr
  cases hf : fs.frame? id with
  | none => simp [hf] at hr
  | some f =>
    rw [hf, Option.bind_some, NameTable.get?] at hr
    cases hrefs : f.ivarRefs.entries.get? key with
    | none => simp [hrefs] at hr
    | some refs =>
      rw [hrefs] at hr
      exact h id f hf (key, refs) (Table.mem_of_lookup hrefs) r hr

theorem Quiets.hiddenBy (frame : FrameId) (name : Value) : Quiets (Check.hiddenBy frame name) := by
  refine (quiets_checks.key name).bind fun key s => ?_
  rw [wp_bind, wp_get]
  have hdrop : Quiets (modifyFrames (·.dropIvarRefs frame key)) :=
    Quiets.modifyFrame (fun _ _ => rfl) fun _ _ _ h => (List.mem_filter.1 h).1
  have hbesides (t : GenState) (ht : Quiet s t) :
      wp (Check.hiddenBesides s frame name key) (fun _ t => Quiet s t) (fun _ _ => True) t := by
    unfold Check.hiddenBesides
    split
    · exact ht
    split
    · exact ht
    · refine (hdrop t).bind fun _ u hu => (wp_bind ..).2 ?_
      exact quiet_takeBack name _ (fun hs r hr => hs.of_mem_ivarRefs hr) u (ht.trans hu)
  have hundeclare : Quiets (modifyFrames (·.undeclare (s.frames.root frame) key)) :=
    Quiets.modifyFrame (fun _ _ => rfl) fun _ _ _ h => h
  split
  · exact hbesides s (Quiet.refl s)
  split
  · exact (hundeclare s).bind fun _ t ht => hbesides t ht
  split
  · exact Quiet.refl s
  · exact hbesides s (Quiet.refl s)

end ObjectiveJ
