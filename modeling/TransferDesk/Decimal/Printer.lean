import TransferDesk.Decimal.Basic
/-!
# The text of a decimal

`toText` shows a decimal with all its places, so that it can be read back. `toFixedText` shows a
given number of places: missing ones are filled up with zeros, further ones are cut off without
rounding.
-/

namespace TransferDesk.Decimal

/-- The last `width` decimal digits of a natural number, with zeros in front. -/
def fixedDigits : Nat → Nat → List Char
  | 0, _ => []
  | width + 1, n => fixedDigits width (n / 10) ++ [Nat.digitChar (n % 10)]

theorem isDigit_of_mem_fixedDigits {width n : Nat} {c : Char} (h : c ∈ fixedDigits width n) :
    c.isDigit := by
  induction width generalizing n with
  | zero => cases h
  | succ width ih =>
    rcases List.mem_append.1 h with h | h
    · exact ih h
    · obtain rfl := List.mem_singleton.1 h
      rw [Nat.isDigit_digitChar]
      exact decide_eq_true (Nat.mod_lt n (by decide))

/-- The magnitude `n / 10 ^ places`, with a point only if there are places. -/
def magnitudeText (n places : Nat) : List Char :=
  Nat.toDigits 10 (n / Nat.pow 10 places) ++
    if places = 0 then [] else '.' :: fixedDigits places n

theorem mem_magnitudeText {n places : Nat} {c : Char} (h : c ∈ magnitudeText n places) :
    c = '.' ∨ c.isDigit := by
  rcases List.mem_append.1 h with h | h
  · exact Or.inr (Nat.isDigit_of_mem_toDigits (by decide) (by decide) h)
  · split at h
    · cases h
    · rcases List.mem_cons.1 h with h | h
      · exact Or.inl h
      · exact Or.inr (isDigit_of_mem_fixedDigits h)

/-- The minus, if there is one. -/
def signText (d : Decimal) : List Char :=
  if d.negative then ['-'] else []

theorem mem_signText {d : Decimal} {c : Char} (h : c ∈ d.signText) : c = '-' := by
  unfold signText at h
  split at h
  · exact List.mem_singleton.1 h
  · cases h

/-- The characters of a decimal, all its places included. -/
def toChars (d : Decimal) : List Char :=
  d.signText ++ magnitudeText d.magnitude d.scale

/-- The text of a decimal, all its places included. -/
def toText (d : Decimal) : String :=
  String.ofList d.toChars

/-- The characters of a decimal with exactly `places` places. A minus stays, even if only zeros are
left behind it. -/
def toFixedChars (places : Nat) (d : Decimal) : List Char :=
  d.signText ++
    magnitudeText
      (d.magnitude * Nat.pow 10 (places - d.scale) / Nat.pow 10 (d.scale - places)) places

/-- A decimal is shown with a minus, a point and digits only. -/
theorem mem_toFixedChars {places : Nat} {d : Decimal} {c : Char} (h : c ∈ d.toFixedChars places) :
    c = '-' ∨ c = '.' ∨ c.isDigit := by
  rcases List.mem_append.1 h with h | h
  · exact Or.inl (mem_signText h)
  · exact Or.inr (mem_magnitudeText h)

end TransferDesk.Decimal
