import Mathlib.Algebra.Order.Field.Rat
import Mathlib.Algebra.Order.Ring.Abs
import Mathlib.Tactic.FieldSimp
import Mathlib.Tactic.Linarith
import Mathlib.Tactic.NormNum
import Mathlib.Tactic.Positivity
import Mathlib.Tactic.Ring
import TransferDesk.Decimal.Units
import TransferDesk.Money
/-!
# The exact value of a decimal

`value` is the rational number that a decimal stands for and `cents` the same number counted in
hundredths. Statements about money are made with them, since they do not depend on the scale.

* `lt_iff_value_lt`, `positive_iff_value_pos`: the order of decimals is the order of their values;
* `value_asMoney`: money stands for the number it was made from;
* `scale_asMoney`: a number of cents that fits in 96 bits is kept at exactly two places.
-/

namespace TransferDesk.Decimal

/-- The exact number. -/
def value (d : Decimal) : ℚ :=
  d.coeff / 10 ^ d.scale

/-- The exact number, counted in cents. -/
def cents (d : Decimal) : ℚ :=
  100 * d.value

theorem pow_ten_ne_zero (n : ℕ) : (10 : ℚ) ^ n ≠ 0 :=
  pow_ne_zero n (by norm_num)

/-- A difference of scales is a quotient of powers. -/
theorem pow_ten_sub {a b : ℕ} (h : a ≤ b) : (10 : ℚ) ^ (b - a) = 10 ^ b / 10 ^ a := by
  have hb : (10 : ℚ) ^ b = 10 ^ (b - a) * 10 ^ a := by
    rw [← pow_add, Nat.sub_add_cancel h]
  rw [hb, mul_div_cancel_right₀ _ (pow_ten_ne_zero a)]

theorem value_mul_pow (d : Decimal) : d.value * 10 ^ d.scale = d.coeff := by
  rw [value, div_mul_cancel₀ _ (pow_ten_ne_zero d.scale)]

/-! ## Order -/

theorem value_eq_units (d : Decimal) : d.value = d.units / 10 ^ 28 := by
  have h : (d.units : ℚ) * 10 ^ d.scale = d.coeff * 10 ^ 28 := by
    exact_mod_cast units_mul_pow d
  have hs := pow_ten_ne_zero d.scale
  have h28 := pow_ten_ne_zero 28
  rw [value, div_eq_div_iff hs h28, h]

theorem value_eq_value_iff {a b : Decimal} : a.value = b.value ↔ a.units = b.units := by
  rw [value_eq_units, value_eq_units, div_left_inj' (pow_ten_ne_zero 28)]
  exact Int.cast_inj

theorem lt_iff_value_lt {a b : Decimal} : a < b ↔ a.value < b.value := by
  have h28 : (0 : ℚ) < 10 ^ 28 := by positivity
  rw [lt_iff_units_lt, value_eq_units, value_eq_units, div_lt_div_iff_of_pos_right h28]
  exact Int.cast_lt.symm

theorem positive_iff_value_pos {d : Decimal} : d.Positive ↔ 0 < d.value := by
  have h28 : (0 : ℚ) < 10 ^ 28 := by positivity
  rw [positive_iff_units_pos, value_eq_units, div_pos_iff_of_pos_right h28]
  exact Int.cast_pos.symm

/-! ## Bounds -/

theorem abs_coeff_lt (d : Decimal) : |d.coeff| < 2 ^ 96 := by
  have h := d.magnitude_lt
  rw [← natAbs_coeff] at h
  rw [Int.abs_eq_natAbs]
  exact_mod_cast h

theorem magnitude_eq_zero_iff {d : Decimal} : d.magnitude = 0 ↔ d.value = 0 := by
  rw [value, div_eq_zero_iff, or_iff_left (pow_ten_ne_zero d.scale), Int.cast_eq_zero,
    ← natAbs_coeff, Int.natAbs_eq_zero]

/-! ## Changes of scale and sign -/

@[simp] theorem value_normalize (d : Decimal) : d.normalize.value = d.value :=
  value_eq_value_iff.2 (units_normalize d)

@[simp] theorem value_extend (places : ℕ) (d : Decimal) : (d.extend places).value = d.value :=
  value_eq_value_iff.2 (units_extend places d)

/-- Money stands for the number it was made from. -/
@[simp] theorem value_asMoney (d : Decimal) : d.asMoney.value = d.value := by
  rw [asMoney, value_extend, value_normalize]

/-- Whether a balance is below an amount of money does not depend on the places of the amount. -/
theorem lt_asMoney_iff {balance amount : Decimal} :
    balance < amount.asMoney ↔ balance.value < amount.value := by
  rw [lt_iff_value_lt, value_asMoney]

@[simp] theorem cents_asMoney (d : Decimal) : d.asMoney.cents = d.cents := by
  rw [cents, value_asMoney, cents]

@[simp] theorem scale_negate (d : Decimal) : d.negate.scale = d.scale := by
  unfold negate
  split <;> rfl

@[simp] theorem coeff_negate (d : Decimal) : d.negate.coeff = -d.coeff := by
  unfold negate
  split
  · rename_i h
    have : d.coeff = 0 := by
      rw [← Int.natAbs_eq_zero, natAbs_coeff, h]
    rw [this, neg_zero]
  · unfold coeff
    cases d.negative <;> simp

@[simp] theorem value_negate (d : Decimal) : d.negate.value = -d.value := by
  rw [value, value, coeff_negate, scale_negate, Int.cast_neg, neg_div]

@[simp] theorem magnitude_negate (d : Decimal) : d.negate.magnitude = d.magnitude := by
  rw [← natAbs_coeff, coeff_negate, Int.natAbs_neg, natAbs_coeff]

@[simp] theorem cents_negate (d : Decimal) : d.negate.cents = -d.cents := by
  rw [cents, value_negate, cents, mul_neg]

/-! ## Cents -/

/-- At two places the coefficient counts the cents. -/
theorem cents_eq_coeff {d : Decimal} (h : d.scale = 2) : d.cents = d.coeff := by
  rw [cents, value, h]
  ring

theorem ofParts?_of_lt {coeff : ℤ} {scale : ℕ} (hc : |coeff| < 2 ^ 96) (hs : scale ≤ 28) :
    ∃ d, ofParts? coeff scale = some d ∧ d.coeff = coeff ∧ d.scale = scale := by
  have hlt : coeff.natAbs < 2 ^ 96 := by
    rw [Int.abs_eq_natAbs] at hc
    exact_mod_cast hc
  have hd : ∃ d, ofParts? coeff scale = some d := by
    unfold ofParts? ofSigned?
    rw [dif_pos ⟨hlt, hs⟩]
    exact ⟨_, rfl⟩
  obtain ⟨d, hd⟩ := hd
  exact ⟨d, hd, ofParts?_eq_some hd⟩

/-- The decimal `coeff / 10 ^ scale`, if it is within bounds. -/
def ofParts (coeff : ℤ) (scale : ℕ) : Decimal :=
  (ofParts? coeff scale).getD default

theorem value_ofParts {coeff : ℤ} {scale : ℕ} (hc : |coeff| < 2 ^ 96) (hs : scale ≤ 28) :
    (ofParts coeff scale).value = coeff / 10 ^ scale := by
  obtain ⟨d, hd, hdc, hds⟩ := ofParts?_of_lt hc hs
  rw [ofParts, hd, Option.getD_some, value, hdc, hds]

theorem scale_widen_le (n : ℕ) (d : Decimal) : (widen n d).scale ≤ d.scale + n := by
  induction n generalizing d with
  | zero => exact le_refl _
  | succ n ih =>
    rw [widen]
    split
    · rename_i wider hwider
      have hscale := (ofParts?_eq_some hwider).2
      have := ih wider
      omega
    · omega

theorem scale_le_widen (n : ℕ) (d : Decimal) : d.scale ≤ (widen n d).scale := by
  induction n generalizing d with
  | zero => exact le_refl _
  | succ n ih =>
    rw [widen]
    split
    · rename_i wider hwider
      have hscale := (ofParts?_eq_some hwider).2
      have := ih wider
      omega
    · exact le_refl _

/-- As many places are added as the number fits with. -/
theorem le_scale_widen {k n : ℕ} {d : Decimal} (hk : k ≤ n) (hc : |d.coeff * 10 ^ k| < 2 ^ 96)
    (hs : d.scale + k ≤ 28) : d.scale + k ≤ (widen n d).scale := by
  induction k generalizing n d with
  | zero => exact scale_le_widen n d
  | succ k ih =>
    obtain ⟨n, rfl⟩ : ∃ m, n = m + 1 := ⟨n - 1, by omega⟩
    have hn : d.coeff * 10 ^ (k + 1) = d.coeff * 10 * 10 ^ k := by ring
    -- with one place more the number is no longer than with all of them
    have hle : |d.coeff * 10| ≤ |d.coeff * 10 ^ (k + 1)| := by
      rw [hn, abs_mul _ ((10 : ℤ) ^ k)]
      have h1 : (1 : ℤ) ≤ |10 ^ k| := by
        rw [abs_of_pos (pow_ten_pos k)]
        exact pow_ten_pos k
      exact le_mul_of_one_le_right (abs_nonneg _) h1
    obtain ⟨wider, hw, hwc, hws⟩ := ofParts?_of_lt (lt_of_le_of_lt hle hc)
      (show d.scale + 1 ≤ 28 by omega)
    have hfit : |wider.coeff * 10 ^ k| < 2 ^ 96 := by
      rw [hwc, ← hn]
      exact hc
    have hrest := @ih n wider (by omega) hfit (by omega)
    rw [widen, hw]
    simp only
    omega

/-- A number with two places or fewer is a whole number of cents. -/
theorem cents_of_scale_le {d : Decimal} (h : d.scale ≤ 2) :
    d.cents = (d.coeff * 10 ^ (2 - d.scale) : ℤ) := by
  have h0 := pow_ten_ne_zero d.scale
  push_cast
  rw [cents, ← value_mul_pow, pow_ten_sub h]
  field_simp
  ring

/-- An amount of cents that fits in 96 bits is kept at exactly two places. -/
theorem scale_asMoney {d : Decimal} (hd : ¬ d.ExceedsMoney) (hc : |d.cents| < 2 ^ 96) :
    d.asMoney.scale = 2 := by
  have hs : d.normalize.scale ≤ 2 := Nat.not_lt.1 hd
  have hfit : |d.normalize.coeff * 10 ^ (2 - d.normalize.scale)| < 2 ^ 96 := by
    rw [cents, ← value_normalize, ← cents, cents_of_scale_le hs] at hc
    exact_mod_cast hc
  have hall := le_scale_widen (le_refl _) hfit (by omega)
  have hmost := scale_widen_le (2 - d.normalize.scale) d.normalize
  change (widen (2 - d.normalize.scale) d.normalize).scale = 2
  omega

end TransferDesk.Decimal
