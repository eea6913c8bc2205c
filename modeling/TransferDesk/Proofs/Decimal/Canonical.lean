import Mathlib.Order.Bounds.Basic
import TransferDesk.Proofs.Decimal.Cents
/-!
# One way to write an amount of money

Decimals of one value differ by the zeros at their end, and by the minus that a zero can have.
Without either there is one way left to write a number (`normalize_congr`), since no decimal of the
value has fewer places (`scale_normalize_le`). So money is the same decimal however its number was
written before (`asMoney_congr`). It has as many of its two places as 96 bits can hold
(`isGreatest_scale_asMoney`), which is both of them if and only if its cents can be counted in 96
bits (`scale_asMoney_iff`).
-/

namespace TransferDesk.Decimal

/-- Without its zeros a number has no minus at a zero. -/
theorem zero_normalize {d : Decimal} (hzero : d.normalize.magnitude = 0) :
    d.normalize.negative = false := by
  change (stripZeros d.coeff d.scale).1.natAbs = 0 at hzero
  change decide ((stripZeros d.coeff d.scale).1 < 0) = false
  rw [Int.natAbs_eq_zero.1 hzero]
  rfl

/-- A number is written in one way without zeros at its end. -/
theorem normalize_congr {a b : Decimal} (h : a.value = b.value) : a.normalize = b.normalize := by
  have hle {a b : Decimal} (h : a.value = b.value) : a.normalize.scale ≤ b.normalize.scale := by
    apply scale_normalize_le (c := b.normalize.coeff)
    rw [h, ← b.value_normalize, value]
  have hscale : a.normalize.scale = b.normalize.scale := le_antisymm (hle h) (hle h.symm)
  have hcoeff : a.normalize.coeff = b.normalize.coeff := by
    have hq : (a.normalize.coeff : ℚ) = b.normalize.coeff := by
      rw [← value_mul_pow, ← value_mul_pow, value_normalize, value_normalize, h, hscale]
    exact_mod_cast hq
  exact eq_of_coeff zero_normalize zero_normalize hcoeff hscale

/-- Money is written in one way. -/
theorem asMoney_congr {a b : Decimal} (h : a.value = b.value) : a.asMoney = b.asMoney := by
  unfold asMoney
  rw [normalize_congr h]

theorem exceedsMoney_congr {a b : Decimal} (h : a.value = b.value) :
    a.ExceedsMoney ↔ b.ExceedsMoney := by
  unfold ExceedsMoney
  rw [normalize_congr h]

/-! ## Places of money -/

/-- A number that fits in 96 bits with some places of money has at least so many. -/
theorem le_scale_asMoney {d : Decimal} {c : ℤ} {places : ℕ} (hplaces : places ≤ 2)
    (hc : |c| < 2 ^ 96) (h : d.value = c / 10 ^ places) : places ≤ d.asMoney.scale := by
  have hfew := scale_normalize_le h
  -- the coefficient with so many places is that without zeros and with zeros put back
  have hcoeff : d.normalize.coeff * 10 ^ (places - d.normalize.scale) = c := by
    have hq : (d.normalize.coeff : ℚ) * 10 ^ (places - d.normalize.scale) = c := by
      have hn := pow_ten_ne_zero d.normalize.scale
      have hp := pow_ten_ne_zero places
      rw [← value_mul_pow, value_normalize, h, pow_ten_sub hfew]
      field_simp
    exact_mod_cast hq
  have hwide : places - d.normalize.scale ≤ 2 - d.normalize.scale := by omega
  have hmore := le_scale_widen hwide (by rwa [hcoeff]) (by omega)
  change places ≤ (widen (2 - d.normalize.scale) d.normalize).scale
  omega

/-- Money has the most places, up to two, with which its number fits in 96 bits. -/
theorem isGreatest_scale_asMoney {d : Decimal} (h : ¬ d.ExceedsMoney) :
    IsGreatest {places | places ≤ 2 ∧ ∃ c : ℤ, |c| < 2 ^ 96 ∧ d.value = c / 10 ^ places}
      d.asMoney.scale := by
  constructor
  · refine ⟨scale_asMoney_le h, d.asMoney.coeff, abs_coeff_lt d.asMoney, ?_⟩
    rw [← d.value_asMoney, value]
  · rintro places ⟨hplaces, c, hc, hv⟩
    exact le_scale_asMoney hplaces hc hv

/-- Money has both its places if and only if its cents can be counted in 96 bits. -/
theorem scale_asMoney_iff {d : Decimal} (h : ¬ d.ExceedsMoney) :
    d.asMoney.scale = 2 ↔ |d.cents| < 2 ^ 96 := by
  constructor
  · intro hscale
    rw [← cents_asMoney, cents_eq_coeff hscale]
    exact_mod_cast abs_coeff_lt d.asMoney
  · exact scale_asMoney h

end TransferDesk.Decimal
