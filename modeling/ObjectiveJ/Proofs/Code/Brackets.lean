import ObjectiveJ.Text.Basic

/-!
# Nested brackets

A text is read from the front with a stack of the brackets that have to be closed, the innermost one
first. Other characters do not count. A text in which each bracket is closed by its partner leaves
the stack as it was, whatever that is, so it can be put anywhere.

Two texts have the same brackets if they do the same to every stack. The *residue* of a text is what
is left of its brackets when those that belong together are struck out.
-/

namespace ObjectiveJ.Text

variable {cs : List Char}

/-- The bracket that closes an opening one. -/
def partner? : Char → Option Char
  | '(' => some ')'
  | '[' => some ']'
  | '\x7b' => some '\x7d'
  | _ => none

def isClosing (c : Char) : Bool := c = ')' || c = ']' || c = '\x7d'

def isBracket (c : Char) : Bool := (partner? c).isSome || isClosing c

def readBracket (c : Char) (stack : List Char) : Option (List Char) :=
  match partner? c with
  | some d => some (d :: stack)
  | none =>
    if isClosing c then
      match stack with
      | d :: rest => if d = c then some rest else none
      | [] => none
    else some stack

/-- The brackets that are still to be closed after a text, if each bracket of the text that closes
one closes its partner. -/
def readBrackets (stack : List Char) : List Char → Option (List Char)
  | [] => some stack
  | c :: cs => (readBracket c stack).bind fun stack => readBrackets stack cs

/-- Each bracket of the text is closed by its partner, and closes it. -/
def IsNested (cs : List Char) : Prop := readBrackets [] cs = some []

instance (cs : List Char) : Decidable (IsNested cs) := inferInstanceAs (Decidable (_ = _))

theorem readBrackets_append (stack cs ds : List Char) :
    readBrackets stack (cs ++ ds) = (readBrackets stack cs).bind fun stack =>
    readBrackets stack ds := by
  induction cs generalizing stack with
  | nil => rfl
  | cons c cs ih =>
    rw [List.cons_append, readBrackets, readBrackets, Option.bind_assoc]
    exact congrArg _ (funext ih)

/-- Texts that do the same to every stack. -/
def SameBrackets (cs ds : List Char) : Prop :=
  ∀ stack, readBrackets stack cs = readBrackets stack ds

namespace SameBrackets

variable {cs ds es fs : List Char}

theorem refl (cs : List Char) : SameBrackets cs cs := fun _ => rfl

theorem symm (h : SameBrackets cs ds) : SameBrackets ds cs := fun stack => (h stack).symm

theorem trans (h : SameBrackets cs ds) (h' : SameBrackets ds es) : SameBrackets cs es :=
  fun stack => (h stack).trans (h' stack)

theorem append (h : SameBrackets cs ds) (h' : SameBrackets es fs) :
    SameBrackets (cs ++ es) (ds ++ fs) := fun stack => by
  rw [readBrackets_append, readBrackets_append, h stack]
  exact congrArg _ (funext h')

theorem append_nil (h : SameBrackets cs ds) (h' : SameBrackets es []) :
    SameBrackets (cs ++ es) ds := by
  have hall := h.append h'
  rwa [List.append_nil] at hall

theorem nil_append (h : SameBrackets cs []) (h' : SameBrackets es fs) :
    SameBrackets (cs ++ es) fs :=
  h.append h'

theorem isNested (h : SameBrackets cs []) : IsNested cs := h []

end SameBrackets

theorem sameBrackets_cons {c : Char} {ds : List Char} (hc : isBracket c = false)
    (h : SameBrackets cs ds) : SameBrackets (c :: cs) ds := fun stack => by
  simp only [isBracket, Bool.or_eq_false_iff, Option.isSome_eq_false_iff,
    Option.isNone_iff_eq_none] at hc
  have hread : readBracket c stack = some stack := by simp [readBracket, hc.1, hc.2]
  rw [readBrackets, hread]
  exact h stack

theorem sameBrackets_nil (h : ∀ c ∈ cs, isBracket c = false) : SameBrackets cs [] := by
  induction cs with
  | nil => exact .refl []
  | cons c cs ih =>
    exact sameBrackets_cons (h c (.head _)) (ih fun d hd => h d (.tail _ hd))

/-- One more bracket after those that are not closed yet, the last one of which comes first. -/
def strike (before : List Char) (c : Char) : List Char :=
  match before with
  | o :: rest => if partner? o = some c then rest else c :: o :: rest
  | [] => [c]

/-- The brackets that are not closed yet, the last one first, and then those of a text. Partners are
struck out. -/
def residueAfter : List Char → List Char → List Char
  | before, [] => before.reverse
  | before, c :: cs => residueAfter (if isBracket c then strike before c else before) cs

def residue (cs : List Char) : List Char := residueAfter [] cs

theorem isClosing_of_partner? {o c : Char} (h : partner? o = some c) :
    partner? c = none ∧ isClosing c = true := by
  unfold partner? at h
  split at h
  all_goals first
    | cases h
      done
    | cases h
      exact ⟨rfl, rfl⟩

theorem sameBrackets_partners {o c : Char} (h : partner? o = some c) : SameBrackets [o, c] [] := by
  intro stack
  obtain ⟨hnone, hclosing⟩ := isClosing_of_partner? h
  simp [readBrackets, readBracket, h, hnone, hclosing]

theorem sameBrackets_strike (before : List Char) (c : Char) :
    SameBrackets (before.reverse ++ [c]) (strike before c).reverse := by
  unfold strike
  split
  · rename_i o rest
    split
    · rename_i hpartner
      rw [List.reverse_cons, List.append_assoc]
      exact (SameBrackets.refl rest.reverse).append_nil (sameBrackets_partners hpartner)
    · simpa using SameBrackets.refl _
  · exact .refl _

theorem sameBrackets_residueAfter (before cs : List Char) :
    SameBrackets (before.reverse ++ cs) (residueAfter before cs) := by
  induction cs generalizing before with
  | nil =>
    rw [List.append_nil]
    exact .refl _
  | cons c cs ih =>
    rw [residueAfter]
    refine SameBrackets.trans ?_ (ih _)
    split
    · have hstruck := (sameBrackets_strike before c).append (.refl cs)
      rwa [List.append_assoc] at hstruck
    · rename_i hc
      exact (SameBrackets.refl before.reverse).append
        (sameBrackets_cons (by simpa using hc) (.refl cs))

theorem sameBrackets_residue (cs : List Char) : SameBrackets cs (residue cs) :=
  sameBrackets_residueAfter [] cs

/-- Texts that have the same residue have the same brackets. -/
theorem SameBrackets.of_residue {ds : List Char} (h : residue cs = residue ds) :
    SameBrackets cs ds :=
  (sameBrackets_residue cs).trans (h ▸ (sameBrackets_residue ds).symm)

end ObjectiveJ.Text
