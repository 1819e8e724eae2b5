/-!
# Pieces of text

Cutting and joining of texts, stated on lists of characters. Positions count characters, and a cut
takes signed positions: a negative one counts from the end, as in `slice`.
-/

namespace ObjectiveJ.Text

/-- The pieces between the occurrences of `sep`; a text without `sep` is one piece. -/
def split (sep : Char) : List Char → List (List Char)
  | [] => [[]]
  | c :: cs =>
    if c = sep then [] :: split sep cs
    else match split sep cs with
      | [] => [[c]]
      | piece :: rest => (c :: piece) :: rest

@[simp] theorem split_nil (sep : Char) : split sep [] = [[]] := rfl

theorem split_ne_nil (sep : Char) (cs : List Char) : split sep cs ≠ [] := by
  cases cs with
  | nil => simp
  | cons c cs =>
    by_cases h : c = sep
    · simp [split, h]
    · simp only [split, h, if_false]
      cases split sep cs <;> simp

def join (sep : Char) : List (List Char) → List Char
  | [] => []
  | [piece] => piece
  | piece :: rest => piece ++ sep :: join sep rest

theorem join_split (sep : Char) (cs : List Char) : join sep (split sep cs) = cs := by
  induction cs with
  | nil => rfl
  | cons c cs ih =>
    obtain ⟨piece, rest, hp⟩ := List.exists_cons_of_ne_nil (split_ne_nil sep cs)
    by_cases h : c = sep
    · simp only [split, h, if_true]
      rw [hp] at ih ⊢
      simp [join, ih]
    · simp only [split, h, if_false, hp]
      rw [hp] at ih
      cases rest with
      | nil => simpa [join] using ih
      | cons q rest => simpa [join] using ih

def replaceChar (c : Char) (text : List Char) (cs : List Char) : List Char :=
  cs.flatMap fun d => if d = c then text else [d]

/-- The text with every occurrence of a pattern replaced, from left to right; occurrences that
overlap an earlier one are left alone, and so are the next `skipped` characters, which are dropped.
-/
def replaceFrom (pattern text : List Char) (skipped : Nat) : List Char → List Char
  | [] => []
  | c :: cs => match skipped with
    | k + 1 => replaceFrom pattern text k cs
    | 0 =>
      if pattern.isPrefixOf (c :: cs) then
        text ++ replaceFrom pattern text (pattern.length - 1) cs
      else c :: replaceFrom pattern text 0 cs

def replace (pattern text : List Char) (cs : List Char) : List Char := replaceFrom pattern text 0 cs

/-- A signed position in a text of `n` characters; a negative one counts from the end. -/
def position (n : Nat) (i : Int) : Nat :=
  if i < 0 then (i + n).toNat else min i.toNat n

def slice (i j : Int) (cs : List Char) : List Char :=
  let n := cs.length
  (cs.take (position n j)).drop (position n i)

def sliceFrom (i : Int) (cs : List Char) : List Char :=
  cs.drop (position cs.length i)

def sizeLimit : Int := 0x100000000

/-- Counts are less than this, and negative ones not less than its opposite. -/
def countLimit : Int := 0x8000000000000000

def isCount (n : Int) : Bool := -countLimit ≤ n && n < countLimit

/-- `n` copies of a text, none for a negative `n`. A number that is no count is refused, and so is a
text that would be too long. -/
def repeated? (cs : List Char) (n : Int) : Option (List Char) :=
  if !isCount n then none
  else if cs.isEmpty then some []
  else if sizeLimit < cs.length * n then none
  else some (List.replicate n.toNat cs).flatten

def startsWith (pre cs : List Char) : Bool := pre.isPrefixOf cs

def endsWith (suf cs : List Char) : Bool := suf.isSuffixOf cs

end ObjectiveJ.Text
