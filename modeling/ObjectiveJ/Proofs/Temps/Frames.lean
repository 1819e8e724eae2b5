import ObjectiveJ.Proofs.Run
import ObjectiveJ.Proofs.Temps.Numbering

/-!
# Frames and receiver temps

What matters of a frame to receiver temps is its kind, its parent, and how many temps are in use and
were in use at most. Most steps keep all of that. `Frames.Kept` is what every step keeps: the frames
that there are stay where they are, and a temp that is taken is given back.
-/

namespace ObjectiveJ

/-- What matters of a frame to receiver temps. -/
def Frame.temps (f : Frame) : FrameKind × Option FrameId × Int × Int :=
  (f.kind, f.parent, f.level, f.maxLevel)

namespace Frames

variable {f : Frame}

variable {fs gs hs : Frames} {id : FrameId}

def temps (fs : Frames) : Array (FrameKind × Option FrameId × Int × Int) :=
  fs.store.map Frame.temps

def level (fs : Frames) (id : FrameId) : Int := ((fs.frame? id).map (·.level)).getD 0

def maxLevel (fs : Frames) (id : FrameId) : Int := ((fs.frame? id).map (·.maxLevel)).getD 0

/-- The frames around a frame by their kinds. -/
def kinds (fs : Frames) (id : FrameId) : List (FrameId × FrameKind) :=
  (fs.chain id).map fun p => (p.1, p.2.kind)

@[simp] theorem size_modify (id' : FrameId) (g : Frame → Frame) :
    (fs.modify id' g).store.size = fs.store.size := by
  simp [modify]

theorem temps_modify {g : Frame → Frame} (hg : ∀ f, (g f).temps = f.temps) :
    (fs.modify id g).temps = fs.temps := map_modify_same hg ..

theorem map_temps_frame? : (fs.frame? id).map Frame.temps = fs.temps[id]? := by
  simp [frame?, temps]

theorem level_eq : fs.level id = (fs.temps[id]?.map (·.2.2.1)).getD 0 := by
  rw [level, ← map_temps_frame?, Option.map_map]
  rfl

theorem maxLevel_eq : fs.maxLevel id = (fs.temps[id]?.map (·.2.2.2)).getD 0 := by
  rw [maxLevel, ← map_temps_frame?, Option.map_map]
  rfl

theorem level_of_size_le (h : fs.store.size ≤ id) : fs.level id = 0 := by
  simp [level, frame?, h]

theorem isSome_frame? : (fs.frame? id).isSome ↔ id < fs.store.size := by
  simp [frame?]

/-! ### The frame that owns the variables -/

theorem varFrame_eq : fs.varFrame id =
    ((((fs.kinds id).find? (·.2.ownsVars)).or (fs.kinds id).getLast?).map (·.1)).getD id := by
  rw [varFrame, root, kinds, List.find?_map, List.getLast?_map]
  change _ = ((((List.find? (fun p => p.2.kind.ownsVars) (fs.chain id)).map _).or _).map _).getD id
  cases (fs.chain id).find? (·.2.kind.ownsVars) with
  | some p => rfl
  | none => simp only [Option.map_none, Option.none_or, Option.map_map]; rfl

theorem kinds_congr (h : ∀ i ≤ id, (gs.frame? i).map (fun f => (f.kind, f.parent)) =
    (fs.frame? i).map fun f => (f.kind, f.parent)) : gs.kinds id = fs.kinds id := by
  induction id using Nat.strongRecOn with
  | ind id ih =>
    have hid := h id (Nat.le_refl id)
    rw [kinds, kinds, chain, chain.eq_1 fs id]
    cases hg : gs.frame? id with
    | none =>
      rw [hg, Option.map_none, eq_comm, Option.map_eq_none_iff] at hid
      rw [hid]
    | some g =>
      rw [hg, Option.map_some, eq_comm, Option.map_eq_some_iff] at hid
      obtain ⟨f, hf, heq⟩ := hid
      obtain ⟨hkind, hparent⟩ := Prod.mk.inj heq
      simp only [hf, List.map_cons, hkind, hparent]
      cases g.parent with
      | none => rfl
      | some up =>
        by_cases hup : up < id
        · simp only [hup, if_true]
          rw [← kinds, ← kinds, ih up hup fun i hi => h i (Nat.le_trans hi (Nat.le_of_lt hup))]
        · simp only [hup, if_false, List.map_nil]

theorem kinds_cons (hf : fs.frame? id = some f) : ∃ rest, fs.kinds id = (id, f.kind) :: rest := by
  rw [kinds, chain, hf]
  exact ⟨_, rfl⟩

theorem varFrame_of_ownsVars (hf : fs.frame? id = some f) (h : f.kind.ownsVars = true) :
    fs.varFrame id = id := by
  obtain ⟨rest, hkinds⟩ := kinds_cons hf
  rw [varFrame_eq, hkinds, List.find?_cons, h]
  rfl

/-- The frame of a class or protocol has the variables of the frame around it. -/
theorem varFrame_of_parent {up : Frame} {parent : FrameId} (hf : fs.frame? id = some f)
    (hparent : f.parent = some parent) (hlt : parent < id) (hup : fs.frame? parent = some up)
    (h : f.kind.ownsVars = false) : fs.varFrame id = fs.varFrame parent := by
  obtain ⟨rest, hrest⟩ := kinds_cons hup
  have hkinds : fs.kinds id = (id, f.kind) :: fs.kinds parent := by
    rw [kinds, chain, hf]
    simp only [hparent, if_pos hlt, List.map_cons]
    rfl
  rw [varFrame_eq, varFrame_eq, hkinds, List.find?_cons, h]
  simp only []
  rw [hrest, List.getLast?_cons_cons]
  cases hfound : ((((parent, up.kind) :: rest).find? (·.2.ownsVars)).or
    ((parent, up.kind) :: rest).getLast?) with
  | some p => rfl
  | none => simp [List.getLast?_cons] at hfound

theorem mem_kinds_lt {p : FrameId × FrameKind} (hp : p ∈ fs.kinds id) : p.1 < fs.store.size := by
  induction id using Nat.strongRecOn with
  | ind id ih =>
    rw [kinds, chain] at hp
    cases hf : fs.frame? id with
    | none => simp [hf] at hp
    | some f =>
      have hid : id < fs.store.size := isSome_frame?.1 (by rw [hf]; rfl)
      simp only [hf, List.map_cons, List.mem_cons] at hp
      rcases hp with rfl | hp
      · exact hid
      · cases hparent : f.parent with
        | none => simp [hparent] at hp
        | some up =>
          by_cases hup : up < id
          · simp only [hparent, hup, if_true] at hp
            exact ih up hup hp
          · simp [hparent, hup] at hp

theorem varFrame_lt (h : id < fs.store.size) : fs.varFrame id < fs.store.size := by
  rw [varFrame_eq]
  cases hp : ((fs.kinds id).find? (·.2.ownsVars)).or (fs.kinds id).getLast? with
  | none => exact h
  | some p =>
    rcases Option.or_eq_some_iff.1 hp with hp | ⟨_, hp⟩
    · exact mem_kinds_lt (List.mem_of_find?_eq_some hp)
    · exact mem_kinds_lt (List.mem_of_getLast? hp)

/-! ### What every step keeps -/

/-- The frames are still there, new ones come after them, and temps are given back. -/
structure Kept (fs gs : Frames) : Prop where
  size : fs.store.size ≤ gs.store.size
  shape : ∀ id < fs.store.size, (gs.frame? id).map (fun f => (f.kind, f.parent)) =
    (fs.frame? id).map fun f => (f.kind, f.parent)
  level : ∀ id, gs.level id = fs.level id

theorem Kept.refl (fs : Frames) : Kept fs fs := ⟨Nat.le_refl _, fun _ _ => rfl, fun _ => rfl⟩

theorem Kept.trans (h : Kept fs gs) (h' : Kept gs hs) : Kept fs hs where
  size := Nat.le_trans h.size h'.size
  shape id hid := (h'.shape id (Nat.lt_of_lt_of_le hid h.size)).trans (h.shape id hid)
  level id := (h'.level id).trans (h.level id)

theorem Kept.of_temps (h : gs.temps = fs.temps) : Kept fs gs where
  size := by
    have hsize := congrArg Array.size h
    simp only [temps, Array.size_map] at hsize
    omega
  shape id _ := by
    have hid := congrArg (fun ts => ts[id]?.map fun c => (c.1, c.2.1)) h
    simp only [← map_temps_frame?, Option.map_map] at hid
    exact hid
  level id := by rw [level_eq, level_eq, h]

theorem Kept.kinds (h : Kept fs gs) (hid : id < fs.store.size) : gs.kinds id = fs.kinds id :=
  kinds_congr fun i hi => h.shape i (Nat.lt_of_le_of_lt hi hid)

theorem Kept.varFrame (h : Kept fs gs) (hid : id < fs.store.size) :
    gs.varFrame id = fs.varFrame id := by
  rw [varFrame_eq, varFrame_eq, h.kinds hid]

theorem Kept.new (hf : f.level = 0) : Kept fs (fs.new f).2 where
  size := by simp [Frames.new]
  shape id hid := by rw [frame?_new, if_neg (Nat.ne_of_lt hid)]
  level id := by
    rw [Frames.level, Frames.level, frame?_new]
    split
    · rename_i h
      simp [h, frame?, hf]
    · rfl

end Frames

end ObjectiveJ
