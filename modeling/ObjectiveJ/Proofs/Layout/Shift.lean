import ObjectiveJ.Layout.Basic

/-!
# Instructions that change the indentation

Code is indented between two instructions that belong together: the levels of a statement in another
one, and the hooks inside of braces and brackets. Such a pair is a `Shift`. All other instructions
stay on the level where they are (`Instr.isLevel`), and instructions are *balanced* if each change
of the level is undone by its partner.
-/

namespace ObjectiveJ

/-- The keys of a format that are no hooks. -/
def Format.settingKeys : List String := ["indent-width", "single-line-array-limit"]

/-- What has hooks on its inner side. -/
inductive Enclosure where
  | braces
  | brackets
  deriving DecidableEq

namespace Enclosure

def leftKey : Enclosure → String
  | braces => "left-brace"
  | brackets => "left-bracket"

def rightKey : Enclosure → String
  | braces => "right-brace"
  | brackets => "right-bracket"

def afterLeft : Enclosure → String
  | braces => "after-left-brace"
  | brackets => "after-left-bracket"

def beforeRight : Enclosure → String
  | braces => "before-right-brace"
  | brackets => "before-right-bracket"

end Enclosure

/-- The hooks where the indentation may change. -/
def Format.shiftKeys : List String :=
  [Enclosure.braces, .brackets].flatMap fun e => [e.afterLeft, e.beforeRight]

def HookKey.texts : HookKey → List String
  | .plain key => [key]
  | .bracket side name _ => [side ++ "-" ++ name, side ++ "-single-" ++ name]

theorem HookKey.keyText?_mem {f : Format} {key : HookKey} {text : String}
    (h : Layout.keyText? f key = some text) : text ∈ key.texts := by
  cases key with
  | plain key =>
    cases h
    exact List.mem_singleton_self _
  | bracket side name elements =>
    obtain ⟨short, _, htext⟩ := Option.bind_eq_some_iff.1 h
    cases htext
    cases short with
    | true => simp [texts, String.append_assoc]
    | false => simp [texts]

namespace Instr

/-- An instruction that changes the indentation by one level at most, and whose hook is one. -/
def isUsual : Instr → Bool
  | .hook _ _ key _ => key.texts.all (· ∉ Format.settingKeys)
  | .indent n => n = 1
  | .dedent n => n = 1
  | _ => true

/-- An instruction that does not change the indentation. -/
def isLevel : Instr → Bool
  | .hook _ _ key _ => key.texts.all fun text => text ∉ Format.settingKeys ∧ text ∉ Format.shiftKeys
  | .indent _ => false
  | .dedent _ => false
  | _ => true

theorem isUsual_of_isLevel {i : Instr} (h : i.isLevel = true) : i.isUsual = true := by
  cases i with
  | hook buffer type key ancestry =>
    simp only [isLevel, isUsual, List.all_eq_true, decide_eq_true_eq] at h ⊢
    exact fun text ht => (h text ht).1
  | indent => cases h
  | dedent => cases h
  | _ => rfl

def blanked : Instr → Instr
  | .text buffer _ location => .text buffer (.str "") location
  | i => i

theorem isUsual_blanked (i : Instr) : i.blanked.isUsual = i.isUsual := by
  cases i <;> rfl

theorem isLevel_blanked (i : Instr) : i.blanked.isLevel = i.isLevel := by
  cases i <;> rfl

end Instr

/-- Two instructions the second of which undoes what the first one does to the indentation. -/
inductive Shift where
  | levels
  | inside (buffer : Nat) (type : String) (e : Enclosure)
  /-- The brackets of an array of so many elements. -/
  | array (buffer : Nat) (type : String) (elements : Nat)

namespace Shift

def opening : Shift → Ancestry → Instr
  | levels, _ => .indent 1
  | inside buffer type e, ancestry => .hook buffer type (.plain e.afterLeft) ancestry
  | array buffer type n, ancestry => .hook buffer type (.bracket "after" "left-bracket" n) ancestry

def closing : Shift → Ancestry → Instr
  | levels, _ => .dedent 1
  | inside buffer type e, ancestry => .hook buffer type (.plain e.beforeRight) ancestry
  | array buffer type n, ancestry =>
      .hook buffer type (.bracket "before" "right-bracket" n) ancestry

theorem isUsual_opening (sh : Shift) (a : Ancestry) : (sh.opening a).isUsual = true := by
  cases sh with
  | levels => rfl
  | inside buffer type e => cases e <;> rfl
  | array buffer type n => rfl

theorem isUsual_closing (sh : Shift) (a : Ancestry) : (sh.closing a).isUsual = true := by
  cases sh with
  | levels => rfl
  | inside buffer type e => cases e <;> rfl
  | array buffer type n => rfl

end Shift

/-- Instructions that leave the indentation as it was. -/
inductive Balanced : List Instr → Prop
  | nil : Balanced []
  | level {i : Instr} : i.isLevel = true → Balanced [i]
  | append {is js : List Instr} : Balanced is → Balanced js → Balanced (is ++ js)
  | shifted (sh : Shift) (before after : Ancestry) {is : List Instr} :
    Balanced is → Balanced (sh.opening before :: (is ++ [sh.closing after]))

theorem Balanced.isUsual {is : List Instr} (h : Balanced is) : ∀ i ∈ is, i.isUsual = true := by
  induction h with
  | nil => nofun
  | level hi => simpa using Instr.isUsual_of_isLevel hi
  | append _ _ ih ih' =>
    intro i hi
    exact (List.mem_append.1 hi).elim (ih i) (ih' i)
  | shifted sh before after _ ih =>
    intro i hi
    rcases List.mem_cons.1 hi with rfl | hi
    · exact sh.isUsual_opening before
    · rcases List.mem_append.1 hi with hi | hi
      · exact ih i hi
      · rw [List.mem_singleton.1 hi]
        exact sh.isUsual_closing after

end ObjectiveJ
