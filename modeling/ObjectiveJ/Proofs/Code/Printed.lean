import ObjectiveJ.Proofs.Code.Contents
import ObjectiveJ.Proofs.Layout.Columns

/-!
# The text of generated code

When instructions are carried out, the fragments in a buffer are what the instructions in it write,
in order, and each stands for the place of its instruction (`Layout.Lays.runFrom`). What an
instruction writes depends on the format and on the indentation at that time. So the code of a unit
is the text of the instructions that stand in its first buffer (`Compiler.printed_of_compile`).
-/

namespace ObjectiveJ

variable {is : List Instr} {i : Instr}

/-- What an instruction writes at an indentation, if it writes a text. -/
def Instr.printed (f : Format) (j : Indenter) : Instr → List Char
  | .text _ v _ => (v.text?.getD "").toList
  | .template _ s skipFirst _ => (j.template? s.toList skipFirst).getD []
  | .hook _ type key ancestry =>
    match Layout.keyText? f key with
    | some name => (j.value (f.written (some ancestry) type name)).2.getD []
    | none => []
  | _ => []

/-- A text is what instructions write one after another, each at an indentation of some kind. -/
inductive Printed (f : Format) (P : Indenter → Prop) : List Instr → List Char → Prop
  | nil : Printed f P [] []
  | cons {i : Instr} {is : List Instr} {j : Indenter} {cs : List Char} (hj : P j)
      (rest : Printed f P is cs) : Printed f P (i :: is) (i.printed f j ++ cs)

namespace Printed

variable {f : Format} {P : Indenter → Prop} {is js : List Instr} {cs ds : List Char}

end Printed

/-- The place in the source that an instruction is written for. -/
def Instr.place? : Instr → Option Location
  | .text _ _ location | .template _ _ _ location => location
  | _ => none

/-- Fragments are what instructions write one after another, each at an indentation of some kind,
and stand for the places of these. An instruction without a place may write nothing. -/
inductive Laid (f : Format) (P : Indenter → Prop) : List Instr → List Fragment → Prop
  | nil : Laid f P [] []
  | skip {i : Instr} {is : List Instr} {j : Indenter} {gs : List Fragment} (hj : P j)
      (htext : i.printed f j = []) (hplace : i.place? = none) (rest : Laid f P is gs) :
      Laid f P (i :: is) gs
  | cons {i : Instr} {is : List Instr} {j : Indenter} {g : Fragment} {gs : List Fragment} (hj : P j)
      (htext : (g.value.text?.getD "").toList = i.printed f j) (hplace : g.location = i.place?)
      (rest : Laid f P is gs) : Laid f P (i :: is) (g :: gs)

/-- The text of fragments; what is no text is left out. -/
def Fragment.chars (fs : List Fragment) : List Char :=
  fs.flatMap fun g => (g.value.text?.getD "").toList

namespace Laid

variable {f : Format} {P : Indenter → Prop} {is js : List Instr} {gs hs : List Fragment}

theorem append (h : Laid f P is gs) (h' : Laid f P js hs) : Laid f P (is ++ js) (gs ++ hs) := by
  induction h with
  | nil => exact h'
  | skip hj htext hplace _ ih => exact .skip hj htext hplace ih
  | cons hj htext hplace _ ih => exact .cons hj htext hplace ih

theorem printed (h : Laid f P is gs) : Printed f P is (Fragment.chars gs) := by
  induction h with
  | nil => exact .nil
  | skip hj htext _ _ ih =>
    rw [← List.nil_append (Fragment.chars _), ← htext]
    exact .cons hj ih
  | cons hj htext _ _ ih =>
    rw [Fragment.chars, List.flatMap_cons, htext]
    exact .cons hj ih

theorem filterMap_place? (h : Laid f P is gs) :
    is.filterMap Instr.place? = gs.filterMap Fragment.location := by
  induction h with
  | nil => rfl
  | skip _ _ hplace _ ih => rw [List.filterMap_cons_none hplace, ih]
  | cons _ _ hplace _ ih => simp only [List.filterMap_cons, hplace, ih]

end Laid

/-! ### Buffers -/

namespace Contents

def write (c : Contents) (i : Instr) : Contents :=
  match i with
  | .splice target source => c.append target (c source)
  | i => match i.buffer? with
    | some buffer => c.append buffer [i]
    | none => c

def writeAll (c : Contents) (is : List Instr) : Contents := is.foldl write c

/-- What is left if the texts that may be taken back are left out. -/
def solid (c : Contents) : Contents := fun b => (c b).filter fun i => !i.isSlight

theorem solid_append (c : Contents) (b : Nat) (is : List Instr) :
    (c.append b is).solid = c.solid.append b (is.filter fun i => !i.isSlight) := by
  funext r
  simp only [solid, append]
  split
  · rw [List.filter_append]
  · rfl

theorem solid_write (c : Contents) (i : Instr) : (c.write i).solid = c.solid.exec i := by
  have hone (b : Nat) (hb : i.buffer? = some b) : (c.append b [i]).solid = c.solid.exec i := by
    rw [solid_append]
    cases hslight : i.isSlight with
    | true => rw [exec_of_isSlight _ hslight, List.filter_cons_of_neg (by simp [hslight]),
        List.filter_nil, append_nil]
    | false => rw [exec_of_buffer? _ hslight hb, List.filter_cons_of_pos (by simp [hslight]),
        List.filter_nil]
  cases i with
  | text b | template b | hook b => exact hone b rfl
  | indent | dedent => rfl
  | splice target source => exact solid_append ..

theorem solid_writeAll (c : Contents) (is : List Instr) :
    (c.writeAll is).solid = c.solid.run is := by
  induction is generalizing c with
  | nil => rfl
  | cons i rest ih =>
    rw [writeAll, List.foldl_cons, run, List.foldl_cons, ← solid_write]
    exact ih (c.write i)

theorem mem_write {c : Contents} {j : Instr} {b : Nat} (h : j ∈ c.write i b) :
    j = i ∨ ∃ r, j ∈ c r := by
  have happend {buffer : Nat} {is : List Instr} (h : j ∈ c.append buffer is b) :
      j ∈ is ∨ j ∈ c b := by
    rw [append] at h
    split at h
    · exact (List.mem_append.1 h).symm
    · exact .inr h
  have hone {buffer : Nat} (h : j ∈ c.append buffer [i] b) : j = i ∨ ∃ r, j ∈ c r :=
    (happend h).imp List.mem_singleton.1 fun h => ⟨b, h⟩
  cases i with
  | text | template | hook => exact hone h
  | indent | dedent => exact .inr ⟨b, h⟩
  | splice target source =>
    rcases happend h with h | h
    · exact .inr ⟨source, h⟩
    · exact .inr ⟨b, h⟩

/-- What stands in the buffers has been written. -/
theorem mem_writeAll {c : Contents} {j : Instr} {b : Nat} (h : j ∈ c.writeAll is b) :
    j ∈ is ∨ ∃ r, j ∈ c r := by
  induction is generalizing c with
  | nil => exact .inr ⟨b, h⟩
  | cons i rest ih =>
    rcases ih (c := c.write i) h with h | ⟨r, h⟩
    · exact .inl (.tail _ h)
    · rcases mem_write h with rfl | h
      · exact .inl (.head _)
      · exact .inr h

end Contents

def GenState.written (s : GenState) : Contents := Contents.writeAll (fun _ => []) s.trace.toList

theorem GenState.solid_written (s : GenState) (b : Nat) :
    (s.written b).filter (fun i => !i.isSlight) = s.contents b :=
  congrFun (Contents.solid_writeAll (fun _ => []) s.trace.toList) b

theorem GenState.mem_written {s : GenState} {b : Nat} (h : i ∈ s.written b) :
    i ∈ s.trace.toList := by
  rcases Contents.mem_writeAll h with h | ⟨r, h⟩
  · exact h
  · cases h

theorem Fragment.chars_of_text? {fs : List Fragment} {s : String} (h : Fragment.text? fs = some s) :
    Fragment.chars fs = s.toList := by
  induction fs generalizing s with
  | nil =>
    cases h
    rfl
  | cons g rest ih =>
    obtain ⟨texts, htexts, hs⟩ := Option.bind_eq_some_iff.1 h
    cases hs
    rw [List.mapM_cons] at htexts
    obtain ⟨text, htext, htexts⟩ := Option.bind_eq_some_iff.1 htexts
    obtain ⟨others, hothers, htexts⟩ := Option.bind_eq_some_iff.1 htexts
    cases htexts
    have hrest := ih (s := String.join others) (by simp only [Fragment.text?, hothers]; rfl)
    rw [chars, List.flatMap_cons, htext, String.join_cons, String.toList_append, ← hrest]
    rfl

namespace Layout

variable {P : Indenter → Prop} {l k : Layout} {c : Contents} {i : Instr} {b : Nat}

/-- The fragments in each buffer are what the instructions there write, with their places. -/
structure Lays (P : Indenter → Prop) (l : Layout) (c : Contents) : Prop where
  keeps : l.keepsPlaces = true
  laid : ∀ b, Laid l.format P (c b) (l.fragments b).toList

theorem Lays.append (h : l.Lays P c) (b : Nat) {fs : Array Fragment}
    (hfs : Laid l.format P is fs.toList) : (l.append b fs).Lays P (c.append b is) where
  keeps := h.keeps
  laid r := by
    rw [fragments_append, Contents.append]
    by_cases hr : r = b
    · rw [if_pos hr, if_pos hr.symm, Array.toList_append]
      exact (h.laid r).append hfs
    · rw [if_neg hr, if_neg (Ne.symm hr)]
      exact h.laid r

theorem Lays.skip (h : l.Lays P c) (hj : P l.indenter) (hi : i.printed l.format l.indenter = [])
    (hplace : i.place? = none) : l.Lays P (c.append b [i]) where
  keeps := h.keeps
  laid r := by
    rw [Contents.append]
    split
    · have happend := (h.laid r).append (.skip hj hi hplace .nil)
      rwa [List.append_nil] at happend
    · exact h.laid r

theorem Lays.write (h : l.Lays P c) (hj : P l.indenter) {v : Value}
    (hv : (v.text?.getD "").toList = i.printed l.format l.indenter) :
    (l.write b v i.place?).Lays P (c.append b [i]) := by
  let written : Fragment := { serial := l.count, value := v, location := l.placeOf i.place? }
  have hone : Laid l.format P [i] #[written].toList := .cons hj hv (if_pos h.keeps) .nil
  have happend := h.append b hone
  exact ⟨happend.keeps, happend.laid⟩

theorem Lays.hook (h : l.Lays P c) (hj : P l.indenter) {type name : String} {key : HookKey}
    {ancestry : Ancestry} (hname : keyText? l.format key = some name)
    (hk : l.hook b type name ancestry = .ok k) :
    k.Lays P (c.append b [.hook b type key ancestry]) := by
  unfold Layout.hook at hk
  dsimp only at hk
  have hprinted : (Instr.hook b type key ancestry).printed l.format l.indenter =
      (l.indenter.value (l.format.written (some ancestry) type name)).2.getD [] := by
    simp only [Instr.printed, hname]
  split at hk
  · rename_i hfalse
    cases hk
    have hnone : l.format.written (some ancestry) type name = [] := by
      unfold Format.written
      cases hv : l.format.valueFor (some ancestry) type name with
      | str s =>
        rw [hv] at hfalse
        obtain rfl : s = "" := by simpa [Json.truthy] using hfalse
        rfl
      | null | bool | int | float | arr | obj => rfl
    refine h.skip hj ?_ rfl
    rw [hprinted, hnone]
    rfl
  · split at hk
    · rename_i s hs
      split at hk
      · rename_i j text htext
        cases hk
        have hwritten : l.format.written (some ancestry) type name = s.toList := by
          rw [Format.written, hs]
          rfl
        have hwrite := h.write (b := b) (i := .hook b type key ancestry)
          (v := .str (String.ofList text)) hj
          (by rw [hprinted, hwritten, htext]; simp [Value.text?])
        exact ⟨hwrite.keeps, hwrite.laid⟩
      · cases hk
    · cases hk

theorem Lays.exec (h : l.Lays P c) (hj : P l.indenter) (hk : l.exec i = .ok k) :
    k.Lays P (c.write i) := by
  cases i with
  | text b v location =>
    cases hk
    exact h.write (i := .text b v location) hj rfl
  | template b s skipFirst location =>
    simp only [Layout.exec] at hk
    cases htext : l.indenter.template? s.toList skipFirst with
    | none =>
      rw [htext] at hk
      cases hk
    | some text =>
      rw [htext] at hk
      cases hk
      exact h.write (i := .template b s skipFirst location) hj
        (by simp [Instr.printed, htext, Value.text?])
  | hook b type key ancestry =>
    simp only [Layout.exec] at hk
    split at hk
    · rename_i name hname
      exact h.hook hj hname hk
    · cases hk
  | indent n =>
    simp only [Layout.exec] at hk
    cases hindent : l.indenter.indent? (.int n) with
    | none =>
      rw [hindent] at hk
      cases hk
    | some j =>
      rw [hindent] at hk
      cases hk
      exact ⟨h.keeps, h.laid⟩
  | dedent n =>
    simp only [Layout.exec] at hk
    cases hdedent : l.indenter.dedent? (.int n) with
    | none =>
      rw [hdedent] at hk
      cases hk
    | some j =>
      rw [hdedent] at hk
      cases hk
      exact ⟨h.keeps, h.laid⟩
  | splice target source =>
    cases hk
    exact h.append target (h.laid source)

/-- The format stays, and the indentation is what the instruction makes of it. -/
theorem indented?_of_exec (hk : l.exec i = .ok k) :
    k.format = l.format ∧ i.indented? l.format l.indenter = some k.indenter := by
  have hexec := l.exec_indenter i
  rw [hk] at hexec
  obtain ⟨j, hj, heq⟩ := Option.map_eq_some_iff.1 hexec.symm
  obtain ⟨hformat, rfl⟩ := Prod.mk.inj heq
  exact ⟨hformat.symm, hj⟩

/-- Carrying out instructions writes what they print, if each of them leaves the indentation of the
kind that it is of. -/
theorem Lays.runFrom {f : Format}
    (hstep : ∀ {i : Instr} {j j' : Indenter}, P j → i.indented? f j = some j' → P j') {number : Nat}
    (hf : l.format = f) (h : l.Lays P c) (hj : P l.indenter) (hk : l.runFrom number is = .ok k) :
    k.Lays P (c.writeAll is) ∧ k.format = f := by
  induction is generalizing l c number with
  | nil =>
    cases hk
    exact ⟨h, hf⟩
  | cons i rest ih =>
    unfold Layout.runFrom at hk
    split at hk
    · rename_i l' hl'
      obtain ⟨hformat, hindented⟩ := indented?_of_exec hl'
      exact ih (hformat.trans hf) (h.exec hj hl') (hstep hj (hf ▸ hindented)) hk
    · cases hk

/-- What is laid out from the start is what the instructions in each buffer write. -/
theorem laid_of_run {f : Format} {j : Indenter} (hj : P j)
    (hstep : ∀ {i : Instr} {j j' : Indenter}, P j → i.indented? f j = some j' → P j')
    (hk : ({ format := f, indenter := j } : Layout).run is = .ok k) (b : Nat) :
    Laid f P (Contents.writeAll (fun _ => []) is b) (k.fragments b).toList := by
  have hempty : ({ format := f, indenter := j } : Layout).Lays P fun _ => [] := ⟨rfl, fun _ => .nil⟩
  obtain ⟨hlays, hformat⟩ := hempty.runFrom hstep rfl hj hk
  exact hformat ▸ hlays.laid b

end Layout

/-- The code of a result is a text, up to a line break and the line that names the source map. -/
def CompileResult.EndsAs (r : CompileResult) (text : String) : Prop :=
  r.code = Compiler.terminated text ∨ ∃ name, r.code = Compiler.terminated text ++
    Compiler.trailer name

namespace Compiler

variable {c : Compiler} {symbols : Symbols} {u : CompileUnit} {r : CompileResult}

theorem prefix_terminated (s : String) : s.toList <+: (terminated s).toList := by
  unfold terminated
  split
  · exact List.prefix_rfl
  · rw [String.toList_append]
    exact List.prefix_append ..

theorem isPrefix_of_endsAs {text : String} (h : r.EndsAs text) : text.toList <+: r.code.toList := by
  rcases h with h | ⟨name, h⟩
  · rw [h]
    exact prefix_terminated text
  · rw [h, String.toList_append]
    exact (prefix_terminated text).trans (List.prefix_append ..)

theorem endsAs_of_finish {layout : Layout} {d : Diagnostics} (h : c.finish u layout d = .ok r) :
    ∃ text, Fragment.text? (layout.fragments 0).toList = some text ∧ r.EndsAs text := by
  have houtput := output?_of_finish h
  unfold output? at houtput
  obtain ⟨text, htext, houtput⟩ := Option.bind_eq_some_iff.1 houtput
  obtain ⟨name, _, houtput⟩ := Option.bind_eq_some_iff.1 houtput
  refine ⟨text, htext, ?_⟩
  dsimp only at houtput
  split at houtput
  · exact .inl (Prod.mk.inj (Option.some.inj houtput)).1.symm
  · obtain ⟨_, _, houtput⟩ := Option.bind_eq_some_iff.1 houtput
    obtain ⟨file, _, houtput⟩ := Option.bind_eq_some_iff.1 houtput
    exact .inr ⟨file, (Prod.mk.inj (Option.some.inj houtput)).1.symm⟩

/-- The code of a unit is what the instructions in its first buffer write. -/
theorem printed_of_compile {P : Indenter → Prop} (hstart : ∀ j, c.indenter? = some j → P j)
    (hstep : ∀ {i : Instr} {j j' : Indenter}, P j → i.indented? c.format j = some j' → P j')
    (h : (c.compile symbols u).1 = .ok r) :
    ∃ source text, u.source? = some source ∧ r.EndsAs text ∧
      Printed c.format P ((c.outcome symbols u source none).2.written 0) text.toList := by
  obtain ⟨indenter, layout, source, hindenter, hsource, hrun, -, -, hfinish⟩ := run_of_compile h
  obtain ⟨text, htext, hends⟩ := endsAs_of_finish hfinish
  have hprinted := (Layout.laid_of_run (hstart indenter hindenter) hstep hrun 0).printed
  rw [Fragment.chars_of_text? htext] at hprinted
  exact ⟨source, text, hsource, hends, hprinted⟩

end Compiler

end ObjectiveJ
