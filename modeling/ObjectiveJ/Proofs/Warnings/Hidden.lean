import ObjectiveJ.Generate.Check
import ObjectiveJ.Proofs.Run

/-!
# What a declaration hides

A declaration is checked for what it hides by looking up its name from the frame of the declaration
on. A variable that the frame itself has under the name is found first, so a name that is declared
twice in a frame is said to hide itself. Where the frame has no such variable, what is hidden is
outside of the frame: a variable of a frame around it, a symbol or an instance variable
(`Check.hidden_exact`).
-/

namespace ObjectiveJ

open Gen

namespace Frames

variable {fs : Frames} {id : FrameId} {name : Key} {p : FrameId × Frame}

/-- The frames around a frame, the nearest first. -/
def around (fs : Frames) (id : FrameId) : List (FrameId × Frame) := (fs.chain id).tail

theorem chain_eq {f : Frame} (h : fs.frame? id = some f) :
    fs.chain id = (id, f) :: fs.around id := by
  rw [around, chain, h, List.tail_cons]

theorem le_of_mem_chain (h : p ∈ fs.chain id) : p.1 ≤ id := by
  induction id using Nat.strongRecOn with
  | ind id ih =>
    rw [chain] at h
    cases hf : fs.frame? id with
    | none => simp [hf] at h
    | some f =>
      simp only [hf, List.mem_cons] at h
      rcases h with rfl | h
      · exact Nat.le_refl _
      cases hup : f.parent with
      | none => simp [hup] at h
      | some up =>
        simp only [hup] at h
        split at h
        · rename_i hlt
          exact Nat.le_trans (ih up hlt h) (Nat.le_of_lt hlt)
        · cases h

theorem mem_around (h : p ∈ fs.around id) : p ∈ fs.chain id ∧ p.1 ≠ id := by
  refine ⟨List.mem_of_mem_tail h, ?_⟩
  rw [around, chain] at h
  cases hf : fs.frame? id with
  | none => simp [hf] at h
  | some f =>
    cases hup : f.parent with
    | none => simp [hf, hup] at h
    | some up =>
      simp only [hf, hup, List.tail_cons] at h
      split at h
      · rename_i hlt
        exact Nat.ne_of_lt (Nat.lt_of_le_of_lt (le_of_mem_chain h) hlt)
      · cases h

theorem exists_of_lookupIn {ps : List (FrameId × Frame)} {v : Variable}
    (h : lookupIn name false ps = some v) : ∃ p ∈ ps, p.2.vars.get? name = some v := by
  induction ps with
  | nil => cases h
  | cons p ps ih =>
    rw [lookupIn] at h
    cases hp : p.2.vars.get? name with
    | some w =>
      rw [hp] at h
      exact ⟨p, .head _, hp.trans h⟩
    | none =>
      simp only [hp, Bool.false_and, Bool.false_eq_true, if_false] at h
      obtain ⟨q, hq, hv⟩ := ih h
      exact ⟨q, List.mem_cons_of_mem _ hq, hv⟩

/-- A name stands for a variable of the frame itself, else for one of a frame around it. -/
theorem lookup_eq (fs : Frames) (id : FrameId) (name : Key) :
    fs.lookup id name = (fs.localVar id name).or (lookupIn name false (fs.around id)) := by
  cases hf : fs.frame? id with
  | none =>
    rw [lookup, localVar, hf, around, chain, hf]
    rfl
  | some f =>
    rw [lookup, chain_eq hf, lookupIn, localVar, hf, Option.bind_some]
    cases f.vars.get? name with
    | none => simp
    | some v => simp

end Frames

namespace Check

variable {s u : GenState} {frame : FrameId} {name : Value} {key : Key} {hidden : Hidden}

/-- What a declaration in a frame says of a variable that it hides. An implicit global of the frame
is not mentioned. -/
def described? (frame : FrameId) (v : Variable) : Option Hidden :=
  if v.kind = .implicitGlobal && v.owner = some frame then none
  else v.kind.description?.map fun description => ⟨description, v.node⟩

/-- Something outside of a frame that a name stands for: a variable of a frame around it, a symbol,
or an instance variable. -/
inductive IsOutside (s : GenState) (frame : FrameId) (key : Key) : Hidden → Prop
  | outer {p : FrameId × Frame} {v : Variable} {hidden : Hidden} (hp : p ∈ s.frames.chain frame)
      (hout : p.1 ≠ frame) (hv : p.2.vars.get? key = some v)
      (h : described? frame v = some hidden) : IsOutside s frame key hidden
  | symbol {hidden : Hidden} (h : hiddenSymbol s key = some hidden) : IsOutside s frame key hidden
  | ivar {ivar : Ivar} (h : s.frames.ivar s.symbols frame key = some ivar) :
      IsOutside s frame key ⟨"an instance variable", ivar.node⟩

theorem wp_hiddenBesides (t : GenState) : wp (hiddenBesides s frame name key)
    (fun h _ => ∀ hidden, h = some hidden → IsOutside s frame key hidden) (fun _ _ => True) t := by
  unfold hiddenBesides
  split
  · rename_i hsymbol
    exact fun _ h => .symbol (hsymbol.trans h)
  split
  · exact nofun
  · rename_i ivar hivar
    simp only [wp_bind, wp_pure]
    refine wp_of_forall (fun _ _ => wp_of_forall (fun _ _ => ?_) fun _ _ => trivial) fun _ _ =>
      trivial
    rintro _ ⟨⟩
    exact .ivar hivar

theorem run_hiddenBy (hkey : name.key? = some key) (frame : FrameId) (s : GenState) :
    (hiddenBy frame name).run.run s = (match s.frames.lookup frame key with
    | none => hiddenBesides s frame name key
    | some v =>
      if v.kind = .implicitGlobal && v.owner = some frame then do
        modifyFrames (·.undeclare (s.frames.root frame) key)
        hiddenBesides s frame name key
      else match v.kind.description? with
        | some description => return some ⟨description, v.node⟩
        | none => hiddenBesides s frame name key : Gen (Option Hidden)).run.run s := by
  unfold hiddenBy
  rw [Gen.key, hkey]
  rfl

/-- The search for what is hidden goes by the variable that the name stands for. -/
theorem run_hiddenBy_eq (hkey : name.key? = some key) (frame : FrameId) (s : GenState) :
    ∃ t, (hiddenBy frame name).run.run s =
      match (s.frames.lookup frame key).bind (described? frame) with
      | some hidden => (.ok (some hidden), s)
      | none => (hiddenBesides s frame name key).run.run t := by
  rw [run_hiddenBy hkey]
  cases s.frames.lookup frame key with
  | none => exact ⟨s, rfl⟩
  | some v =>
    rw [Option.bind_some, described?]
    dsimp only
    split
    · exact ⟨_, rfl⟩
    · cases v.kind.description? with
      | none => exact ⟨s, rfl⟩
      | some d => exact ⟨s, rfl⟩

/-- A name that is no described variable of the frame itself is looked up outside of it. -/
theorem isOutside_of_hiddenBy (hkey : name.key? = some key)
    (hown : (s.frames.localVar frame key).bind (described? frame) = none)
    (h : (hiddenBy frame name).run.run s = (.ok (some hidden), u)) :
    IsOutside s frame key hidden := by
  obtain ⟨t, hrun⟩ := run_hiddenBy_eq hkey frame s
  rw [hrun, Frames.lookup_eq] at h
  have hbesides (h : (hiddenBesides s frame name key).run.run t = (.ok (some hidden), u)) :
      IsOutside s frame key hidden := wp.ok (wp_hiddenBesides t) h hidden rfl
  cases hlocal : s.frames.localVar frame key with
  | some v =>
    rw [hlocal] at hown
    rw [hlocal, Option.some_or, hown] at h
    exact hbesides h
  | none =>
    rw [hlocal, Option.none_or] at h
    cases hv : Frames.lookupIn key false (s.frames.around frame) with
    | none =>
      rw [hv] at h
      exact hbesides h
    | some v =>
      obtain ⟨p, hp, hget⟩ := Frames.exists_of_lookupIn hv
      obtain ⟨hchain, hout⟩ := Frames.mem_around hp
      rw [hv, Option.bind_some] at h
      cases hd : described? frame v with
      | some other =>
        rw [hd] at h
        cases h
        exact .outer hchain hout hget hd
      | none =>
        rw [hd] at h
        exact hbesides h

/-- A described variable of the frame itself is found first. -/
theorem run_hiddenBy_own {own : Hidden} (hkey : name.key? = some key)
    (hown : (s.frames.localVar frame key).bind (described? frame) = some own) :
    (hiddenBy frame name).run.run s = (.ok (some own), s) := by
  obtain ⟨v, hv, hd⟩ := Option.bind_eq_some_iff.1 hown
  obtain ⟨t, hrun⟩ := run_hiddenBy_eq hkey frame s
  rw [hrun, Frames.lookup_eq, hv, Option.some_or, Option.bind_some, hd]

/-- A declaration is said to hide a variable of its own frame if there is one under the name that is
described. If there is none, whatever it is said to hide is outside of the frame. -/
theorem hidden_exact (hkey : name.key? = some key) (frame : FrameId) (s : GenState) :
    (∀ own, (s.frames.localVar frame key).bind (described? frame) = some own →
      (hiddenBy frame name).run.run s = (.ok (some own), s)) ∧
    ((s.frames.localVar frame key).bind (described? frame) = none →
      ∀ hidden u, (hiddenBy frame name).run.run s = (.ok (some hidden), u) →
        IsOutside s frame key hidden) :=
  ⟨fun _ hown => run_hiddenBy_own hkey hown, fun hown _ _ h => isOutside_of_hiddenBy hkey hown h⟩

/-- A function in which `x` is declared as a variable. -/
def declaresLocal : GenState where
  settings := {}
  symbols := {}
  diagnostics := .ofSource none
  frames := (⟨#[{ kind := .global }, { kind := .function, parent := some 0 }]⟩ : Frames).declare 1
    (.text "x") (.str "x") { kind := .localVar, owner := some 1 }

theorem hidden_declaredLocal :
    (hiddenBy 1 (.str "x")).run.run declaresLocal =
      (.ok (some ⟨"a variable in a containing closure", .null⟩), declaresLocal) :=
  (hidden_exact rfl 1 declaresLocal).1 _ rfl

/-- The function alone has the name. -/
theorem not_isOutside_declaresLocal (hidden : Hidden) :
    ¬ IsOutside declaresLocal 1 (.text "x") hidden := by
  intro h
  cases h with
  | outer hp hout hv h =>
    have hnone : ∀ p ∈ declaresLocal.frames.chain 1,
        p.1 = 1 ∨ (p.2.vars.get? (.text "x")).isNone = true := by decide +kernel
    rcases hnone _ hp with hsame | hnone
    · exact hout hsame
    · rw [hv] at hnone
      cases hnone
  | symbol h =>
    have hnone : (hiddenSymbol declaresLocal (.text "x")).isNone = true := by decide +kernel
    rw [h] at hnone
    cases hnone
  | ivar h =>
    have hnone : (declaresLocal.frames.ivar declaresLocal.symbols 1 (.text "x")).isNone = true := by
      decide +kernel
    rw [h] at hnone
    cases hnone

theorem hidden_not_outside : ∃ hidden u,
    (hiddenBy 1 (.str "x")).run.run declaresLocal = (.ok (some hidden), u) ∧
      ¬ IsOutside declaresLocal 1 (.text "x") hidden :=
  ⟨_, _, run_hiddenBy_own rfl rfl, not_isOutside_declaresLocal _⟩

end Check

end ObjectiveJ
