import TransferDesk.Proofs.Decimal.Value
/-!
# Whole cents

Money is what comes to a whole number of cents, whatever the scale at which it is written
(`not_exceedsMoney_iff`), and it is kept with two places at most (`scale_asMoney_le`). To add and to
subtract gives no places that were not there (`scale_add?_le`, `scale_sub?_le`), and as long as
whole cents fit in 96 bits it is exact and leaves exactly two places (`exists_add?_inCents`,
`exists_sub?_inCents`).
-/

namespace TransferDesk.Decimal

/-- Without the zeros at its end a number has no more places than it takes to write it. -/
theorem scale_normalize_le {d : Decimal} {c : ℤ} {places : ℕ} (h : d.value = c / 10 ^ places) :
    d.normalize.scale ≤ places := by
  by_contra hmore
  have hmul : d.normalize.coeff * 10 ^ places = c * 10 ^ d.normalize.scale := by
    have hq : (d.normalize.coeff : ℚ) * 10 ^ places = c * 10 ^ d.normalize.scale := by
      have hp := pow_ten_ne_zero places
      rw [← value_mul_pow, value_normalize, h]
      field_simp
    exact_mod_cast hq
  -- a further place that is needed does not end in a zero, but here there is a zero
  obtain ⟨more, hscale⟩ := Nat.exists_eq_add_of_lt (not_le.1 hmore)
  have hten : d.normalize.coeff = c * 10 ^ more * 10 := by
    rw [hscale, show places + more + 1 = more + 1 + places by omega, pow_add, pow_succ, ← mul_assoc,
      ← mul_assoc] at hmul
    exact mul_right_cancel₀ (pow_ten_pos places).ne' hmul
  rcases stripZeros_minimal d.coeff d.scale with hzero | hlast
  · change d.normalize.scale = 0 at hzero
    omega
  · rw [← coeff_normalize, hten, Int.mul_emod_left] at hlast
    exact hlast rfl

/-- A number needs more places than money has if it is no whole number of cents. -/
theorem not_exceedsMoney_iff {d : Decimal} : ¬ d.ExceedsMoney ↔ ∃ n : ℤ, d.cents = n := by
  constructor
  · intro h
    have hcents := cents_of_scale_le (Nat.not_lt.1 h)
    rw [cents, value_normalize] at hcents
    exact ⟨_, hcents⟩
  · rintro ⟨n, hn⟩
    apply not_lt.2
    apply scale_normalize_le (c := n)
    rw [← hn, cents, moneyPlaces]
    ring

/-- A number with two places or fewer is money. -/
theorem not_exceedsMoney_of_scale_le {d : Decimal} (h : d.scale ≤ moneyPlaces) : ¬ d.ExceedsMoney :=
  not_exceedsMoney_iff.2 ⟨_, cents_of_scale_le h⟩

/-- Money has two places at most. -/
theorem scale_asMoney_le {d : Decimal} (h : ¬ d.ExceedsMoney) : d.asMoney.scale ≤ 2 := by
  have hplaces : d.normalize.scale ≤ 2 := Nat.not_lt.1 h
  have hwiden := scale_widen_le (2 - d.normalize.scale) d.normalize
  change (widen (2 - d.normalize.scale) d.normalize).scale ≤ 2
  omega

/-- A sum has no more places than what is added. It can have fewer, where it is rounded. -/
theorem scale_add?_le {a b d : Decimal} {places : ℕ} (h : a.add? b = some d)
    (ha : a.scale ≤ places) (hb : b.scale ≤ places) : d.scale ≤ places := by
  unfold add? at h
  split at h
  · rwa [← Option.some.inj h]
  · split at h
    · rwa [← Option.some.inj h]
    · exact le_trans (scale_fit?_le h) (max_le ha hb)

theorem scale_sub?_le {a b d : Decimal} {places : ℕ} (h : a.sub? b = some d)
    (ha : a.scale ≤ places) (hb : b.scale ≤ places) : d.scale ≤ places := by
  refine scale_add?_le h ha ?_
  rwa [scale_negate]

/-! ## Sums of whole cents -/

/-- What to add and to subtract whole cents leaves behind: two places, and no minus at a zero. -/
structure InCents (d : Decimal) : Prop where
  scale : d.scale = 2
  zero : d.magnitude = 0 → d.negative = false

/-- A decimal is that of its coefficient and its scale, if it has no minus at a zero. -/
theorem eq_of_coeff {a b : Decimal} (ha : a.magnitude = 0 → a.negative = false)
    (hb : b.magnitude = 0 → b.negative = false) (hcoeff : a.coeff = b.coeff)
    (hscale : a.scale = b.scale) :
    a = b := by
  have hparts := ofParts?_coeff ha
  rw [hcoeff, hscale, ofParts?_coeff hb] at hparts
  exact (Option.some.inj hparts).symm

/-- An amount of cents is written in one way only. -/
theorem InCents.eq_of_cents {a b : Decimal} (ha : a.InCents) (hb : b.InCents)
    (h : a.cents = b.cents) : a = b := by
  rw [cents_eq_coeff ha.scale, cents_eq_coeff hb.scale, Int.cast_inj] at h
  exact eq_of_coeff ha.zero hb.zero h (ha.scale.trans hb.scale.symm)

/-- No zero with a minus is made of a coefficient and a scale. -/
theorem zero_of_ofParts? {coeff : ℤ} {scale : ℕ} {d : Decimal} (h : ofParts? coeff scale = some d)
    (hzero : d.magnitude = 0) : d.negative = false := by
  obtain rfl : coeff = 0 := by
    rw [← (ofParts?_eq_some h).1, ← Int.natAbs_eq_zero, natAbs_coeff, hzero]
  unfold ofParts? ofSigned? at h
  split at h
  · rw [← Option.some.inj h]
    rfl
  · simp at h

/-- Whole cents other than zero are added to a number with two places at most. -/
theorem exists_add?_inCents {a b : Decimal} (ha : a.scale ≤ 2) (hb : b.scale = 2)
    (hne : b.magnitude ≠ 0) (h : |a.cents + b.cents| < 2 ^ 96) :
    ∃ d, a.add? b = some d ∧ d.InCents ∧ d.cents = a.cents + b.cents := by
  by_cases hzero : a.magnitude = 0
  · -- the sum with a zero is the other number as it stands
    refine ⟨b, if_pos hzero, ⟨hb, fun h => absurd h hne⟩, ?_⟩
    rw [cents, cents, magnitude_eq_zero_iff.1 hzero, mul_zero, zero_add]
  · have hcents : a.cents + b.cents = (a.coeffAt 2 + b.coeffAt 2 : ℤ) := by
      rw [cents_of_scale_le ha, cents_of_scale_le (Nat.le_of_eq hb)]
      exact (Int.cast_add _ _).symm
    have hfits : |a.coeffAt 2 + b.coeffAt 2| < 2 ^ 96 := by
      rw [hcents] at h
      exact_mod_cast h
    obtain ⟨d, hd, hdc, hds⟩ := ofParts?_of_lt hfits (show 2 ≤ 28 by decide)
    refine ⟨d, ?_, ⟨hds, zero_of_ofParts? hd⟩, ?_⟩
    · unfold add?
      rw [if_neg hzero, if_neg hne, hb, max_eq_right ha]
      simp only
      rw [fit?_succ, roundMagnitude_one, hd]
    · rw [hcents, cents_eq_coeff hds, hdc]

theorem exists_sub?_inCents {a b : Decimal} (ha : a.scale ≤ 2) (hb : b.scale = 2)
    (hne : b.magnitude ≠ 0) (h : |a.cents - b.cents| < 2 ^ 96) :
    ∃ d, a.sub? b = some d ∧ d.InCents ∧ d.cents = a.cents - b.cents := by
  rw [← magnitude_negate] at hne
  rw [sub_eq_add_neg, ← cents_negate] at h
  rw [sub_eq_add_neg, ← cents_negate]
  exact exists_add?_inCents ha ((scale_negate b).trans hb) hne h

end TransferDesk.Decimal
