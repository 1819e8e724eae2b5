import ObjectiveJ.Generate.State

/-!
# What stands in the buffers

The instructions of a trace fill buffers, and a splice puts all that stands in a buffer at the end
of another one. Here a buffer holds the instructions themselves, in the order in which they are laid
out.

The `self.` before a name may be taken back later on, which leaves an empty text. Both are left out,
so that what stands in a buffer does not change by that.
-/

namespace ObjectiveJ

/-- A text that may be taken back, or that has been. -/
def Instr.isSlight : Instr → Bool
  | .text _ (.str s) _ => s = "self." || s = ""
  | _ => false

/-- The buffer that an instruction writes to. -/
def Instr.buffer? : Instr → Option Nat
  | .text buffer _ _ | .template buffer _ _ _ | .hook buffer _ _ _ => some buffer
  | .indent _ | .dedent _ | .splice _ _ => none

/-- What stands in each buffer. -/
abbrev Contents := Nat → List Instr

namespace Contents

variable (c : Contents) (buffer : Nat) (is : List Instr)

def append (c : Contents) (buffer : Nat) (is : List Instr) : Contents :=
  fun b => if b = buffer then c b ++ is else c b

@[simp] theorem append_self :
    c.append buffer is buffer = c buffer ++ is := if_pos rfl

theorem append_of_ne {buffer b : Nat} (h : b ≠ buffer) :
    c.append buffer is b = c b := if_neg h

theorem append_nil : c.append buffer [] = c := by
  funext b
  rw [append]
  split
  · exact List.append_nil _
  · rfl

theorem append_append (is js : List Instr) :
    (c.append buffer is).append buffer js = c.append buffer (is ++ js) := by
  funext b
  simp only [append]
  split
  · exact List.append_assoc ..
  · rfl

def exec (c : Contents) (i : Instr) : Contents :=
  match i with
  | .splice target source => c.append target (c source)
  | i => if i.isSlight then c else match i.buffer? with
    | some buffer => c.append buffer [i]
    | none => c

theorem exec_of_isSlight {i : Instr} (h : i.isSlight = true) : c.exec i = c := by
  cases i with
  | splice => cases h
  | text | template | hook | indent | dedent => simp [exec, h]

theorem exec_of_buffer? {i : Instr} {buffer : Nat} (hslight : i.isSlight = false)
    (h : i.buffer? = some buffer) : c.exec i = c.append buffer [i] := by
  cases i with
  | splice => cases h
  | text | template | hook | indent | dedent => simp [exec, hslight, h]

def run (c : Contents) (is : List Instr) : Contents := is.foldl exec c

theorem run_append (is js : List Instr) : c.run (is ++ js) = (c.run is).run js :=
  List.foldl_append

/-- One slight text does as well as another one. -/
theorem run_modify (index : Nat) {g : Instr → Instr}
    (h : ∀ i, is[index]? = some i → g i = i ∨ i.isSlight = true ∧ (g i).isSlight = true) :
    c.run (is.modify index g) = c.run is := by
  induction is generalizing c index with
  | nil => simp
  | cons i rest ih =>
    cases index with
    | zero =>
      rw [List.modify_zero_cons, run, run, List.foldl_cons, List.foldl_cons]
      rcases h i rfl with hi | ⟨hi, hgi⟩
      · rw [hi]
      · rw [exec_of_isSlight c hi, exec_of_isSlight c hgi]
    | succ index =>
      rw [List.modify_succ_cons, run, run, List.foldl_cons, List.foldl_cons]
      exact ih (c.exec i) index h

end Contents

def GenState.contents (s : GenState) : Contents := Contents.run (fun _ => []) s.trace.toList

theorem GenState.contents_push (s : GenState) (i : Instr) :
    { s with trace := s.trace.push i }.contents = s.contents.exec i := by
  rw [contents, contents, Array.toList_push, Contents.run_append]
  rfl

end ObjectiveJ
