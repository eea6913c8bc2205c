/-!
# Decimals

A `Decimal` is a number of units of a power of ten, `coeff / 10 ^ scale`, with a magnitude of at
most 96 bits beside its sign and at most 28 places. The same number can be held at several scales,
and the scale is part of the value: `1.5` and `1.50` are different decimals that compare as equal
numbers. So are a zero with a minus and one without. Only reading makes a zero with a minus, from a
number below zero that is rounded to nothing.
-/

namespace TransferDesk

/-- A decimal number with a scale of its own. -/
structure Decimal where
  /-- Whether it has a minus. -/
  negative : Bool
  /-- Its size, counted in units of the last place. -/
  magnitude : Nat
  /-- The number of places after the point. -/
  scale : Nat
  magnitude_lt : magnitude < Nat.pow 2 96 := by decide
  scale_le : scale ≤ 28 := by decide
deriving DecidableEq, Repr

namespace Decimal

/-- The number with its sign, counted in units of the last place. -/
def coeff (d : Decimal) : Int :=
  if d.negative then -(d.magnitude : Int) else d.magnitude

theorem natAbs_coeff (d : Decimal) : d.coeff.natAbs = d.magnitude := by
  unfold coeff
  split <;> simp

/-- The decimal of a sign, a magnitude and a scale, or `none` if it is out of bounds. -/
def ofSigned? (negative : Bool) (magnitude scale : Nat) : Option Decimal :=
  if h : magnitude < Nat.pow 2 96 ∧ scale ≤ 28 then
    some ⟨negative, magnitude, scale, h.1, h.2⟩
  else none

/-- The decimal `coeff / 10 ^ scale`, or `none` if it is out of bounds. A zero has no minus. -/
def ofParts? (coeff : Int) (scale : Nat) : Option Decimal :=
  ofSigned? (coeff < 0) coeff.natAbs scale

instance : Inhabited Decimal := ⟨{ negative := false, magnitude := 0, scale := 0 }⟩

/-- The order of the numbers, whatever their scales. -/
def Less (a b : Decimal) : Prop :=
  a.coeff * Int.pow 10 b.scale < b.coeff * Int.pow 10 a.scale

instance : LT Decimal := ⟨Less⟩

instance (a b : Decimal) : Decidable (a < b) :=
  inferInstanceAs (Decidable (a.coeff * Int.pow 10 b.scale < b.coeff * Int.pow 10 a.scale))

/-- Whether the number is above zero. -/
def Positive (a : Decimal) : Prop :=
  0 < a.coeff

instance (a : Decimal) : Decidable a.Positive :=
  inferInstanceAs (Decidable (0 < a.coeff))

/-- Divides by ten as long as that is exact and there are places left to give up. -/
def stripZeros (coeff : Int) : Nat → Int × Nat
  | 0 => (coeff, 0)
  | scale + 1 => if coeff % 10 = 0 then stripZeros (coeff / 10) scale else (coeff, scale + 1)

theorem natAbs_stripZeros_le (coeff : Int) (scale : Nat) :
    (stripZeros coeff scale).1.natAbs ≤ coeff.natAbs := by
  induction scale generalizing coeff with
  | zero => simp [stripZeros]
  | succ s ih =>
    rw [stripZeros]
    split
    · have := ih (coeff / 10)
      omega
    · simp

theorem stripZeros_snd_le (coeff : Int) (scale : Nat) : (stripZeros coeff scale).2 ≤ scale := by
  induction scale generalizing coeff with
  | zero => simp [stripZeros]
  | succ s ih =>
    rw [stripZeros]
    split
    · have := ih (coeff / 10)
      omega
    · simp

/-- The same number at the least scale that holds it. A zero loses its minus. -/
def normalize (d : Decimal) : Decimal where
  negative := (stripZeros d.coeff d.scale).1 < 0
  magnitude := (stripZeros d.coeff d.scale).1.natAbs
  scale := (stripZeros d.coeff d.scale).2
  magnitude_lt := Nat.lt_of_le_of_lt
    (natAbs_coeff d ▸ natAbs_stripZeros_le d.coeff d.scale) d.magnitude_lt
  scale_le := Nat.le_trans (stripZeros_snd_le d.coeff d.scale) d.scale_le

/-- The same number with up to `n` more places, fewer if the coefficient would pass 96 bits. -/
def widen : Nat → Decimal → Decimal
  | 0, d => d
  | n + 1, d =>
    match ofParts? (d.coeff * 10) (d.scale + 1) with
    | some wider => widen n wider
    | none => d

/-- The same number with at least `places` places, or with as many as 96 bits can hold. -/
def extend (places : Nat) (d : Decimal) : Decimal :=
  widen (places - d.scale) d

end Decimal

end TransferDesk
