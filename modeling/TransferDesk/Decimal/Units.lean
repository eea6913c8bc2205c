import Mathlib.Algebra.Order.Ring.Int
import TransferDesk.Decimal.Arithmetic
/-!
# The number behind a decimal

`units` counts a decimal in units of `10 ^ -28`, the least place there is. It is the number that the
decimal stands for, whatever its scale:

* `lt_iff_units_lt`, `positive_iff_units_pos`: the order of decimals is the order of their units;
* `units_normalize`, `units_extend`: changing the scale leaves the number as it is;
* `coeff_of_fit?`: a result that keeps the scale asked for is exact.
-/

namespace TransferDesk.Decimal

/-- The number, counted in units of `10 ^ -28`. -/
def units (d : Decimal) : Int :=
  d.coeff * 10 ^ (28 - d.scale)

/-- An integer is its magnitude with its sign. -/
theorem signed_natAbs (c : Int) :
    (if decide (c < 0) = true then -(c.natAbs : Int) else c.natAbs) = c := by
  by_cases h : c < 0
  · rw [if_pos (decide_eq_true h)]
    omega
  · rw [if_neg (by simpa using h)]
    omega

theorem pow_ten_pos (n : Nat) : (0 : Int) < 10 ^ n :=
  Int.pow_pos (by decide)

/-- The power of ten between a scale and a larger one. -/
theorem pow_ten_split {a b : Nat} (h : a ≤ b) : (10 : Int) ^ b = 10 ^ (b - a) * 10 ^ a := by
  rw [← Int.pow_add, Nat.sub_add_cancel h]

/-- The units times the power of the scale are the coefficient at scale 28. -/
theorem units_mul_pow (d : Decimal) : d.units * 10 ^ d.scale = d.coeff * 10 ^ 28 := by
  rw [units, Int.mul_assoc, ← pow_ten_split d.scale_le]

theorem lt_iff_units_lt {a b : Decimal} : a < b ↔ a.units < b.units := by
  have ha := units_mul_pow a
  have hb := units_mul_pow b
  have h28 := pow_ten_pos 28
  have hp := Int.mul_pos (pow_ten_pos a.scale) (pow_ten_pos b.scale)
  have left : a.coeff * 10 ^ b.scale * 10 ^ 28 = a.units * (10 ^ a.scale * 10 ^ b.scale) := by
    rw [← Int.mul_assoc, ha]
    ac_rfl
  have right : b.coeff * 10 ^ a.scale * 10 ^ 28 = b.units * (10 ^ a.scale * 10 ^ b.scale) := by
    rw [Int.mul_comm ((10 : Int) ^ a.scale), ← Int.mul_assoc, hb]
    ac_rfl
  change a.coeff * 10 ^ b.scale < b.coeff * 10 ^ a.scale ↔ _
  constructor
  · intro h
    have h := Int.mul_lt_mul_of_pos_right h h28
    rw [left, right] at h
    exact Int.lt_of_mul_lt_mul_right h (Int.le_of_lt hp)
  · intro h
    have h := Int.mul_lt_mul_of_pos_right h hp
    rw [← left, ← right] at h
    exact Int.lt_of_mul_lt_mul_right h (Int.le_of_lt h28)

theorem positive_iff_units_pos {d : Decimal} : d.Positive ↔ 0 < d.units := by
  have hp := pow_ten_pos (28 - d.scale)
  change 0 < d.coeff ↔ 0 < d.coeff * 10 ^ (28 - d.scale)
  exact ⟨fun h => Int.mul_pos h hp, fun h =>
    Int.lt_of_mul_lt_mul_right (by rwa [Int.zero_mul]) (Int.le_of_lt hp)⟩

/-! ## Changes of scale -/

theorem stripZeros_mul_pow (coeff : Int) (scale : Nat) :
    (stripZeros coeff scale).1 * 10 ^ (scale - (stripZeros coeff scale).2) = coeff := by
  induction scale generalizing coeff with
  | zero => simp [stripZeros]
  | succ s ih =>
    rw [stripZeros]
    split
    · have hle := stripZeros_snd_le (coeff / 10) s
      rw [Nat.succ_sub hle, Int.pow_succ, ← Int.mul_assoc, ih]
      omega
    · simp

/-- A coefficient without its zeros has no scale left, or does not end in a zero. -/
theorem stripZeros_minimal (coeff : Int) (scale : Nat) :
    (stripZeros coeff scale).2 = 0 ∨ (stripZeros coeff scale).1 % 10 ≠ 0 := by
  induction scale generalizing coeff with
  | zero => simp [stripZeros]
  | succ s ih =>
    rw [stripZeros]
    split
    · exact ih (coeff / 10)
    · exact Or.inr ‹_›

theorem coeff_normalize (d : Decimal) :
    d.normalize.coeff = (stripZeros d.coeff d.scale).1 :=
  signed_natAbs _

theorem units_normalize (d : Decimal) : d.normalize.units = d.units := by
  have hle := stripZeros_snd_le d.coeff d.scale
  have hs := d.scale_le
  have hc := stripZeros_mul_pow d.coeff d.scale
  rw [units, coeff_normalize]
  change (stripZeros d.coeff d.scale).1 * 10 ^ (28 - (stripZeros d.coeff d.scale).2) = d.units
  rw [units, show 28 - (stripZeros d.coeff d.scale).2
    = (d.scale - (stripZeros d.coeff d.scale).2) + (28 - d.scale) by omega, Int.pow_add,
    ← Int.mul_assoc, hc]

theorem ofParts?_eq_some {coeff : Int} {scale : Nat} {d : Decimal}
    (h : ofParts? coeff scale = some d) : d.coeff = coeff ∧ d.scale = scale := by
  unfold ofParts? ofSigned? at h
  split at h
  · rw [← Option.some.inj h]
    exact ⟨signed_natAbs coeff, rfl⟩
  · simp at h

/-- The sign of a decimal is that of its coefficient, unless there is a minus at a zero. -/
theorem decide_coeff_neg {d : Decimal} (hzero : d.magnitude = 0 → d.negative = false) :
    decide (d.coeff < 0) = d.negative := by
  unfold coeff
  cases hnegative : d.negative with
  | false => simp
  | true =>
    have hne : d.magnitude ≠ 0 := by
      intro h
      rw [hzero h] at hnegative
      cases hnegative
    simp
    omega

/-- A decimal is that of its coefficient and its scale, unless there is a minus at a zero. -/
theorem ofParts?_coeff {d : Decimal} (hzero : d.magnitude = 0 → d.negative = false) :
    ofParts? d.coeff d.scale = some d := by
  unfold ofParts? ofSigned?
  rw [natAbs_coeff, decide_coeff_neg hzero, dif_pos ⟨d.magnitude_lt, d.scale_le⟩]

theorem units_widen (n : Nat) (d : Decimal) : (widen n d).units = d.units := by
  induction n generalizing d with
  | zero => rfl
  | succ n ih =>
    rw [widen]
    split
    · rename_i wider h
      obtain ⟨hc, hs⟩ := ofParts?_eq_some h
      have := wider.scale_le
      rw [ih, units, units, hc, hs, show 28 - d.scale = (28 - (d.scale + 1)) + 1 by omega,
        Int.pow_succ, Int.mul_assoc, Int.mul_comm 10]
    · rfl

theorem units_extend (places : Nat) (d : Decimal) : (d.extend places).units = d.units :=
  units_widen (places - d.scale) d

/-! ## Sums and differences -/

theorem coeffAt_eq (d : Decimal) (scale : Nat) :
    d.coeffAt scale = d.coeff * 10 ^ (scale - d.scale) :=
  rfl

theorem fit?_zero (coeff : Int) (dropped : Nat) :
    fit? coeff dropped 0 =
      ofParts? (roundMagnitude (roundHalfEven · (10 ^ dropped)) coeff) 0 :=
  rfl

theorem fit?_succ (coeff : Int) (dropped kept : Nat) :
    fit? coeff dropped (kept + 1) =
      match ofParts? (roundMagnitude (roundHalfEven · (10 ^ dropped)) coeff) (kept + 1) with
      | some d => some d
      | none => fit? coeff (dropped + 1) kept :=
  rfl

theorem roundMagnitude_one (coeff : Int) :
    roundMagnitude (roundHalfEven · (10 ^ 0)) coeff = coeff := by
  simp only [roundMagnitude, roundHalfEven, Nat.pow_zero, Nat.div_one, Nat.mod_one, Nat.mul_zero]
  simp only [Nat.not_lt_zero, false_or, Nat.reduceEqDiff, false_and, if_false]
  split <;> omega

theorem scale_fit?_le {coeff : Int} {dropped scale : Nat} {d : Decimal}
    (h : fit? coeff dropped scale = some d) : d.scale ≤ scale := by
  induction scale generalizing dropped with
  | zero =>
    rw [fit?] at h
    exact Nat.le_of_eq (ofParts?_eq_some h).2
  | succ s ih =>
    rw [fit?] at h
    split at h
    · rename_i found hf
      rw [← Option.some.inj h]
      exact Nat.le_of_eq (ofParts?_eq_some hf).2
    · exact Nat.le_succ_of_le (ih h)

/-- A result that keeps the scale asked for is exact. -/
theorem coeff_of_fit? {coeff : Int} {scale : Nat} {d : Decimal} (h : fit? coeff 0 scale = some d)
    (hs : d.scale = scale) : d.coeff = coeff := by
  cases scale with
  | zero =>
    rw [fit?_zero, roundMagnitude_one] at h
    exact (ofParts?_eq_some h).1
  | succ s =>
    rw [fit?_succ, roundMagnitude_one] at h
    split at h
    · rename_i found hf
      rw [← Option.some.inj h]
      exact (ofParts?_eq_some hf).1
    · exact absurd hs (Nat.ne_of_lt (Nat.lt_succ_of_le (scale_fit?_le h)))

end TransferDesk.Decimal
