/-!
# Percent encoding

A text as part of an address: letters, digits and the marks `_ . - ~ /` stand for themselves, and
every other character is written as its UTF-8 bytes, each a percent sign and two upper case
hexadecimal digits.
-/

namespace ObjectiveJ.Text

def isUnreserved (c : Char) : Bool :=
  c.isAlphanum || c == '_' || c == '.' || c == '-' || c == '~' || c == '/'

def hexDigit (n : Nat) (upper : Bool) : Char :=
  if n < 10 then Char.ofNat (48 + n) else if upper then Char.ofNat (55 + n) else Char.ofNat (87 + n)

def percentByte (b : UInt8) : List Char :=
  ['%', hexDigit (b.toNat / 16) true, hexDigit (b.toNat % 16) true]

def percentEncode (s : String) : String :=
  String.ofList (s.toList.flatMap fun c =>
    if isUnreserved c then [c]
    else (String.singleton c).toUTF8.toList.flatMap percentByte)

theorem isUnreserved_hexDigit {n : Nat} (h : n < 16) : isUnreserved (hexDigit n true) = true := by
  have hall : ∀ n < 16, isUnreserved (hexDigit n true) = true := by decide
  exact hall n h

/-- Only percent signs and characters that stand for themselves are written. -/
theorem mem_percentEncode {s : String} {c : Char} (hc : c ∈ (percentEncode s).toList) :
    isUnreserved c = true ∨ c = '%' := by
  rw [percentEncode, String.toList_ofList, List.mem_flatMap] at hc
  obtain ⟨d, _, hc⟩ := hc
  split at hc
  · obtain rfl := List.mem_singleton.1 hc
    exact .inl ‹_›
  · obtain ⟨b, _, hb⟩ := List.mem_flatMap.1 hc
    have := b.toNat_lt
    simp only [percentByte, List.mem_cons, List.not_mem_nil, or_false] at hb
    obtain rfl | rfl | rfl := hb
    · exact .inr rfl
    · exact .inl (isUnreserved_hexDigit (by omega))
    · exact .inl (isUnreserved_hexDigit (by omega))

end ObjectiveJ.Text
