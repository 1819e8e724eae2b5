import ObjectiveJ.Generate.Walk
import ObjectiveJ.Proofs.Temps.Spending

/-!
# Nodes that take a temp

A message or literal takes a temp, compiles what is inside of it while the temp is in use, and gives
it back. What it writes before and after that is bare: it has no nodes and assigns nothing.
-/

namespace ObjectiveJ

open Gen

namespace Visits

variable {wrapped : Bool} {level : Nat} {type : String} {vs ws : Visits}

/-- A piece that assigns no temp and splices nothing in. -/
def isBarePiece : Piece → Bool
  | .text s => (assignedTemp? s).isNone
  | .template s => s ≠ tempsHeader
  | .splice => false
  | .other => true

@[simp] def isBare : Visits → Bool
  | nil => true
  | piece p rest => isBarePiece p && rest.isBare
  | node .. => false

theorem isBare_append (h : vs.isBare = true) (h' : ws.isBare = true) :
    (vs ++ ws).isBare = true := by
  induction vs with
  | nil => exact h'
  | piece p rest ih =>
    rw [isBare, Bool.and_eq_true] at h
    rw [piece_append, isBare, Bool.and_eq_true]
    exact ⟨h.1, ih h.2⟩
  | node => cases h

theorem assigned_of_isBare (h : vs.isBare = true) : vs.assigned = [] := by
  induction vs with
  | nil => rfl
  | piece p rest ih =>
    rw [isBare, Bool.and_eq_true] at h
    cases p with
    | text s =>
      have hs := Option.isNone_iff_eq_none.1 h.1
      simp [assigned, hs, ih h.2]
    | _ => exact ih h.2
  | node => cases h

theorem hasSplice_of_isBare (h : vs.isBare = true) : vs.hasSplice = false := by
  induction vs with
  | nil => rfl
  | piece p rest ih =>
    rw [isBare, Bool.and_eq_true] at h
    cases p with
    | splice => cases h.1
    | _ => simp [hasSplice, ih h.2]
  | node => cases h

theorem isFlat_of_isBare (h : vs.isBare = true) : vs.isFlat = true := by
  induction vs with
  | nil => rfl
  | piece p rest ih =>
    rw [isBare, Bool.and_eq_true] at h
    exact ih h.2
  | node => cases h

theorem numbered_of_isBare (h : vs.isBare = true) : vs.Numbered wrapped level := by
  induction vs with
  | nil => trivial
  | piece p rest ih =>
    rw [isBare, Bool.and_eq_true] at h
    refine ⟨?_, ih h.2⟩
    rintro rfl
    simp [isBarePiece] at h
  | node => cases h

/-- Visits that are the same to what a node counts around them. -/
structure SameInside (vs ws : Visits) : Prop where
  assigned : ws.assigned = vs.assigned
  hasSplice : ws.hasSplice = vs.hasSplice
  firstType? : ws.firstType? = vs.firstType?
  depth : ∀ wrapped, ws.depth wrapped = vs.depth wrapped
  scopesIn : ∀ wrapped inFunction, ws.scopesIn wrapped inFunction = vs.scopesIn wrapped inFunction
  numbered : ∀ {wrapped level}, ws.Numbered wrapped level ↔ vs.Numbered wrapped level

theorem SameInside.before (h : ws.isBare = true) : SameInside vs (ws ++ vs) where
  assigned := by simp [assigned_of_isBare h]
  hasSplice := by simp [hasSplice_of_isBare h]
  firstType? := by simp [firstType?_of_isFlat (isFlat_of_isBare h)]
  depth _ := by simp [depth_of_isFlat (isFlat_of_isBare h)]
  scopesIn _ _ := by simp [scopesIn_of_isFlat _ (isFlat_of_isBare h)]
  numbered := numbered_append.trans (and_iff_right (numbered_of_isBare h))

theorem SameInside.after (h : ws.isBare = true) : SameInside vs (vs ++ ws) where
  assigned := by simp [assigned_of_isBare h]
  hasSplice := by simp [hasSplice_of_isBare h]
  firstType? := by simp [firstType?_of_isFlat (isFlat_of_isBare h)]
  depth _ := by simp [depth_of_isFlat (isFlat_of_isBare h)]
  scopesIn _ _ := by simp [scopesIn_of_isFlat _ (isFlat_of_isBare h)]
  numbered := numbered_append.trans (and_iff_left (numbered_of_isBare h))

end Visits

open Visits (SameInside)

variable {wrapped : Bool} {frame owner : FrameId} {α β : Type} {P Q : Visits → Prop}
  {s t u : GenState} {fs gs hs : Frames} {vs ws : Visits} {type : String}

theorem Spends.of_same (hscope : Visits.isScope wrapped type = false) (h : SameInside vs ws)
    (hvs : Spends wrapped owner fs gs (.node type vs .nil)) :
    Spends wrapped owner fs gs (.node type ws .nil) := by
  have hown : Visits.ownTemps type ws = Visits.ownTemps type vs := by
    rw [Visits.ownTemps, Visits.ownTemps, h.assigned]
  have htakes : Visits.Takes type vs → Visits.Takes type ws := by
    rw [Visits.Takes, Visits.Takes, h.assigned, h.hasSplice, h.firstType?]
    exact fun htakes => htakes
  refine ⟨hvs.others, ?_, ?_, ?_⟩
  · rw [hvs.most, Visits.depth, Visits.depth.eq_3 wrapped type ws, hown, h.depth]
  · refine ⟨fun _ => ?_, trivial⟩
    obtain ⟨htaken, hnumbered⟩ := hvs.numbered.1 hscope
    rw [hown]
    exact ⟨htakes htaken, hnumbered.imp (And.imp_right h.numbered.2) (And.imp_right h.numbered.2)⟩
  · have hscopes : (Visits.node type ws .nil).scopes wrapped =
        (Visits.node type vs .nil).scopes wrapped := by
      simp [Visits.scopes, Visits.scopesIn, h.scopesIn, hscope]
    rw [hscopes]
    exact hvs.exact

theorem Spends.inside (h : SameInside vs ws) (hws : Spends wrapped owner fs gs ws) :
    Spends wrapped owner fs gs vs where
  others := hws.others
  most := by rw [hws.most, h.depth]
  numbered := h.numbered.1 hws.numbered
  exact := by
    have hscopes : ws.scopes wrapped = vs.scopes wrapped := h.scopesIn ..
    rw [← hscopes]
    exact hws.exact

theorem Spending.before {count : Nat} (hscope : Visits.isScope wrapped type = false)
    (h : Spending wrapped frame id (fun vs => vs.isBare = true) s t)
    (h' : Spending wrapped frame (.node type · .nil) (fun vs => vs.assigned.length = count) t u)
    (hframe : frame < s.frames.store.size) :
    Spending wrapped frame (.node type · .nil) (fun vs => vs.assigned.length = count) s u := by
  refine h.trans h' hframe (fun hbare _ hkept h h' =>
    ((h.trans h' hkept).inside (.before hbare)).of_same hscope (.before hbare))
      fun xs ys hxs hys => ?_
  rw [Visits.assigned_append, Visits.assigned_of_isBare hxs, List.nil_append, hys]

theorem SpentAs.before {count : Nat} {m : Gen α} {k : α → Gen β}
    (hscope : Visits.isScope wrapped type = false)
    (hm : Spent wrapped frame m fun vs => vs.isBare = true)
    (hk : ∀ a, SpentAs wrapped frame (.node type · .nil) (k a) fun vs =>
      vs.assigned.length = count) :
    SpentAs wrapped frame (.node type · .nil) (m >>= k) fun vs => vs.assigned.length = count :=
  fun s hframe => (hm s hframe).bind fun a t ht =>
    (hk a t (Nat.lt_of_lt_of_le hframe ht.1.size)).imp fun _ _ hu => ht.before hscope hu hframe

theorem SpentAs.after {count : Nat} {m : Gen α} {k : α → Gen β}
    (hscope : Visits.isScope wrapped type = false)
    (hm : SpentAs wrapped frame (.node type · .nil) m fun vs => vs.assigned.length = count)
    (hk : ∀ a, Spent wrapped frame (k a) fun vs => vs.isBare = true) :
    SpentAs wrapped frame (.node type · .nil) (m >>= k) fun vs => vs.assigned.length = count := by
  refine hm.bind hk (fun _ hbare hkept h h' =>
    ((h.trans h' hkept).inside (.after hbare)).of_same hscope (.after hbare))
      fun xs ys hxs hys => ?_
  rw [Visits.assigned_append, Visits.assigned_of_isBare hys, List.append_nil, hxs]

theorem Spent.inside {m : Gen α} (h : Spent wrapped frame m P)
    (hscope : Visits.isScope wrapped type = false)
    (hP : ∀ vs, P vs → Visits.ownTemps type vs = [] ∧ Visits.Takes type vs) :
    SpentAs wrapped frame (.node type · .nil) m P := by
  intro s hframe
  refine (h s hframe).imp fun _ t ht => ⟨ht.1, fun hs => ?_⟩
  obtain ⟨hcounts, vs, hmarks, hspends, hvs⟩ := ht.2 hs
  obtain ⟨hown, htakes⟩ := hP vs hvs
  refine ⟨hcounts, vs, hmarks, ⟨hspends.others, ?_, ?_, ?_⟩, hvs⟩
  · rw [hspends.most, Visits.depth, Visits.depth, hscope, hown]
    simp
  · exact ⟨fun _ => ⟨htakes, .inl ⟨hown, hspends.numbered⟩⟩, trivial⟩
  · rw [Visits.scopes_node hscope]
    exact hspends.exact

/-! ### Temps in use -/

namespace Frames

variable {id : FrameId}

theorem level_takeTemp (howner : owner < fs.store.size) :
    (fs.takeTemp owner).2.level id = fs.level id + if id = owner then 1 else 0 := by
  obtain ⟨f, hf⟩ := Option.isSome_iff_exists.1 (isSome_frame?.2 howner)
  simp only [takeTemp, level, frame?_modify]
  by_cases h : owner = id
  · subst h
    simp [hf]
  · simp [h, Ne.symm h]

theorem maxLevel_takeTemp (howner : owner < fs.store.size) :
    (fs.takeTemp owner).2.maxLevel id =
      if id = owner then max (fs.maxLevel id) (fs.level id + 1) else fs.maxLevel id := by
  obtain ⟨f, hf⟩ := Option.isSome_iff_exists.1 (isSome_frame?.2 howner)
  simp only [takeTemp, level, maxLevel, frame?_modify]
  by_cases h : owner = id
  · subst h
    simp [hf]
  · simp [h, Ne.symm h]

theorem level_dropTemp (howner : owner < fs.store.size) :
    (fs.dropTemp owner).level id = fs.level id - if id = owner then 1 else 0 := by
  obtain ⟨f, hf⟩ := Option.isSome_iff_exists.1 (isSome_frame?.2 howner)
  simp only [dropTemp, level, frame?_modify]
  by_cases h : owner = id
  · subst h
    simp [hf]
  · simp [h, Ne.symm h]

theorem maxLevel_dropTemp : (fs.dropTemp owner).maxLevel id = fs.maxLevel id := by
  simp only [dropTemp, maxLevel, frame?_modify]
  split
  · rw [Option.map_map]
    rfl
  · rfl

theorem shape_modify {g : Frame → Frame}
    (hg : ∀ f, ((g f).kind, (g f).parent) = (f.kind, f.parent)) :
    ((fs.modify owner g).frame? id).map (fun f => (f.kind, f.parent)) =
      (fs.frame? id).map fun f => (f.kind, f.parent) := by
  rw [frame?_modify]
  split
  · rw [Option.map_map]
    exact congrArg (fun h => Option.map h (fs.frame? id)) (funext hg)
  · rfl

theorem shape_takeTemp : ((fs.takeTemp owner).2.frame? id).map (fun f => (f.kind, f.parent)) =
    (fs.frame? id).map fun f => (f.kind, f.parent) := shape_modify fun _ => rfl

theorem shape_dropTemp : ((fs.dropTemp owner).frame? id).map (fun f => (f.kind, f.parent)) =
    (fs.frame? id).map fun f => (f.kind, f.parent) := shape_modify fun _ => rfl

theorem varFrame_takeTemp : (fs.takeTemp owner).2.varFrame id = fs.varFrame id := by
  have hkinds : (fs.takeTemp owner).2.kinds id = fs.kinds id :=
    kinds_congr fun _ _ => shape_takeTemp
  rw [varFrame_eq, varFrame_eq, hkinds]

@[simp] theorem size_takeTemp : (fs.takeTemp owner).2.store.size = fs.store.size := size_modify ..

@[simp] theorem size_dropTemp : (fs.dropTemp owner).store.size = fs.store.size := size_modify ..

end Frames

theorem GenState.Counts.takeTemp (h : s.Counts wrapped) (howner : owner < s.frames.store.size) :
    { s with frames := (s.frames.takeTemp owner).2 }.Counts wrapped where
  objjScope := h.objjScope
  nonneg id := by
    have := h.nonneg id
    rw [Frames.level_takeTemp howner]
    split <;> omega
  le id := by
    have := h.le id
    rw [Frames.level_takeTemp howner, Frames.maxLevel_takeTemp howner]
    split <;> omega
  refs := h.refs.modify fun _ hf => hf

theorem GenState.Counts.dropTemp (h : s.Counts wrapped) (howner : owner < s.frames.store.size)
    (hlevel : 0 < s.frames.level owner) :
    { s with frames := s.frames.dropTemp owner }.Counts wrapped where
  objjScope := h.objjScope
  nonneg id := by
    have := h.nonneg id
    rw [Frames.level_dropTemp howner]
    split
    · rename_i heq
      rw [heq]
      omega
    · omega
  le id := by
    have := h.le id
    rw [Frames.level_dropTemp howner, Frames.maxLevel_dropTemp]
    split <;> omega
  refs := h.refs.modify fun _ hf => hf

/-- A node takes a temp for what is compiled inside of it, and gives it back. -/
theorem SpentAs.taking {k : String → Gen Unit} (hscope : Visits.isScope wrapped type = false)
    (htype : (Visits.isLiteral type || Visits.isMessage type) = true)
    (hk : ∀ level : Int, Spent wrapped frame (k (tempName level)) fun vs =>
      ∀ n : Nat, level = n → vs.assigned = [n]) :
    SpentAs wrapped frame (.node type · .nil)
      (do k (← Message.takeTemp frame); Message.dropTemp frame) fun vs =>
      vs.assigned.length = 1 := by
  intro s hframe
  have howner := Frames.varFrame_lt hframe
  generalize hv : s.frames.varFrame frame = owner at howner
  have htaken : frame < (s.frames.takeTemp owner).2.store.size := by
    rw [Frames.size_takeTemp]
    exact hframe
  simp only [wp_bind, Message.takeTemp, wp_modifyGet, hv]
  refine (hk _ { s with frames := (s.frames.takeTemp owner).2 } htaken).imp fun _ t ht => ?_
  have hvar : t.frames.varFrame frame = owner := by
    rw [ht.1.varFrame htaken, Frames.varFrame_takeTemp, hv]
  have hsize : s.frames.store.size ≤ t.frames.store.size := by
    have hsize := ht.1.size
    rwa [Frames.size_takeTemp] at hsize
  have howner' := Nat.lt_of_lt_of_le howner hsize
  have hlevel (id : FrameId) :
      t.frames.level id = s.frames.level id + if id = owner then 1 else 0 := by
    rw [ht.1.level, Frames.level_takeTemp howner]
  change Spending wrapped frame _ _ s
    { t with frames := t.frames.dropTemp (t.frames.varFrame frame) }
  rw [hvar]
  refine ⟨⟨?_, ?_, ?_⟩, fun hs => ?_⟩
  · rw [Frames.size_dropTemp]
    exact hsize
  · intro id hid
    rw [← Frames.size_takeTemp] at hid
    rw [Frames.shape_dropTemp, ht.1.shape id hid, Frames.shape_takeTemp]
  · intro id
    rw [Frames.level_dropTemp howner', hlevel]
    omega
  obtain ⟨hcounts, vs, hmarks, hspends, hassigned⟩ := ht.2 (hs.takeTemp howner)
  have hnonneg := hs.nonneg owner
  have hspends : Spends wrapped owner (s.frames.takeTemp owner).2 t.frames vs := by
    rw [Frames.varFrame_takeTemp, hv] at hspends
    exact hspends
  have hassigned : vs.assigned = [(s.frames.level owner).toNat + 1] := by
    refine hassigned _ ?_
    change s.frames.level owner + 1 = _
    omega
  have hown : Visits.ownTemps type vs = [(s.frames.level owner).toNat + 1] := by
    rw [Visits.ownTemps, if_pos htype, hassigned]
  have hcount : (s.frames.takeTemp owner).2.level owner = s.frames.level owner + 1 := by
    rw [Frames.level_takeTemp howner, if_pos rfl]
  refine ⟨hcounts.dropTemp howner' (by rw [hlevel, if_pos rfl]; omega), vs, hmarks, ?_,
    congrArg List.length hassigned⟩
  rw [hv]
  refine ⟨fun id hid hne => ?_, ?_, ⟨fun _ => ⟨⟨?_, ?_⟩, .inr ⟨hown, ?_⟩⟩, trivial⟩, ?_⟩
  · rw [← Frames.size_takeTemp] at hid
    rw [Frames.maxLevel_dropTemp, hspends.others id hid hne, Frames.maxLevel_takeTemp howner,
      if_neg hne]
  · rw [Frames.maxLevel_dropTemp, hspends.most, hcount, Frames.maxLevel_takeTemp howner, if_pos rfl,
      Visits.depth, Visits.depth, hscope, hown]
    simp
    omega
  · exact fun _ => by rw [hassigned]; rfl
  · exact fun _ => .inl (by rw [hassigned]; rfl)
  · have hnumbered := hspends.numbered
    rw [hcount] at hnumbered
    rwa [show (s.frames.level owner + 1).toNat = (s.frames.level owner).toNat +
      1 by omega] at hnumbered
  · rw [Visits.scopes_node hscope]
    exact hspends.exact

end ObjectiveJ
