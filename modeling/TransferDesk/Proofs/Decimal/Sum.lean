import TransferDesk.Proofs.Decimal.Value
/-!
# How exact a sum of decimals is

A sum gives up places until it fits, so it can differ from the exact one. It does so only where it
has to:

* `add?_of_representable`: a sum that some decimal stands for is found, and is exact;
* `value_add?_eq_iff`: a sum that is found is exact only then;
* `abs_value_add?_sub_le`: any other sum is off by at most half a unit of its last place.

The same holds of differences. For money at cents the first case is the only one
(`add?_at_cents`, `sub?_at_cents`).
-/

namespace TransferDesk.Decimal

/-- Whether some decimal stands for exactly this number. -/
def Representable (q : ℚ) : Prop :=
  ∃ d : Decimal, d.value = q

/-! ## Rounding -/

theorem roundHalfEven_mul (c : ℕ) {p : ℕ} (hp : 0 < p) : roundHalfEven (c * p) p = c := by
  unfold roundHalfEven
  rw [Nat.mul_div_cancel c hp, Nat.mul_mod_left]
  simp only [Nat.mul_zero]
  rw [if_neg (by omega)]

/-- A rounding that is exact on naturals is exact on integers. -/
theorem roundMagnitude_mul (c : ℤ) {p : ℕ} (hp : 0 < p) :
    roundMagnitude (roundHalfEven · p) (c * p) = c := by
  have hp' : (0 : ℤ) < p := by exact_mod_cast hp
  have hsign : c * p < 0 ↔ c < 0 := by
    constructor
    · intro h
      by_contra hc
      exact absurd (mul_nonneg (Int.not_lt.1 hc) hp'.le) (not_le.2 h)
    · intro h
      exact mul_neg_of_neg_of_pos h hp'
  have habs : roundHalfEven (c * p).natAbs p = c.natAbs := by
    rw [Int.natAbs_mul, Int.natAbs_natCast, roundHalfEven_mul _ hp]
  unfold roundMagnitude
  simp only [hsign, habs]
  split <;> omega

theorem two_mul_abs_roundHalfEven_sub_le (n : ℕ) {p : ℕ} (hp : 0 < p) :
    2 * |(roundHalfEven n p * p - n : ℤ)| ≤ p := by
  have hdiv : (p : ℤ) * (n / p : ℕ) + (n % p : ℕ) = n := by
    exact_mod_cast Nat.div_add_mod n p
  have hmod := Nat.mod_lt n hp
  unfold roundHalfEven
  simp only
  split
  · -- rounded up: the remainder is at least half of the divisor
    rename_i hup
    have he : ((n / p + 1 : ℕ) * p - n : ℤ) = p - (n % p : ℕ) := by
      push_cast at hdiv ⊢
      linarith
    rw [he, abs_of_nonneg (by omega)]
    omega
  · rename_i hdown
    have he : ((n / p : ℕ) * p - n : ℤ) = -(n % p : ℕ) := by
      push_cast at hdiv ⊢
      linarith
    rw [he, abs_neg, abs_of_nonneg (by omega)]
    omega

/-- Rounding moves a number by at most half a unit of what is kept. -/
theorem two_mul_abs_roundMagnitude_sub_le (c : ℤ) {p : ℕ} (hp : 0 < p) :
    2 * |roundMagnitude (roundHalfEven · p) c * p - c| ≤ p := by
  have h := two_mul_abs_roundHalfEven_sub_le c.natAbs hp
  unfold roundMagnitude
  split
  · have hc : (c.natAbs : ℤ) = -c := by omega
    rw [hc] at h
    have he : -(roundHalfEven c.natAbs p : ℤ) * p - c = -(roundHalfEven c.natAbs p * p - -c) := by
      ring
    rw [he, abs_neg]
    exact h
  · have hc : (c.natAbs : ℤ) = c := by omega
    rw [hc] at h
    exact h

/-! ## The largest scale that fits -/

/-- The coefficient of a number that some decimal stands for fits in 96 bits, or ends in a zero
behind the point. -/
theorem coeff_of_representable {c : ℤ} {scale : ℕ} (h : Representable (c / 10 ^ scale)) :
    |c| < 2 ^ 96 ∨ ∃ c', c = c' * 10 ∧ 0 < scale := by
  obtain ⟨d, hd⟩ := h
  have hs := pow_ten_ne_zero scale
  have hmul : d.coeff * 10 ^ scale = c * 10 ^ d.scale := by
    have hv := value_mul_pow d
    rw [hd] at hv
    have : (d.coeff : ℚ) * 10 ^ scale = c * 10 ^ d.scale := by
      rw [← hv]
      field_simp
    exact_mod_cast this
  rcases Nat.lt_or_ge d.scale scale with hlt | hge
  · -- the decimal has fewer places, so at least one zero is left over at the end
    right
    refine ⟨d.coeff * 10 ^ (scale - d.scale - 1), ?_, by omega⟩
    have hsplit : (10 : ℤ) ^ scale = 10 ^ (scale - d.scale - 1) * 10 * 10 ^ d.scale := by
      rw [mul_assoc, ← pow_succ', ← pow_add]
      congr 1
      omega
    rw [hsplit, ← mul_assoc, ← mul_assoc] at hmul
    exact (mul_right_cancel₀ (pow_ten_pos d.scale).ne' hmul).symm
  · left
    have hc : d.coeff = c * 10 ^ (d.scale - scale) := by
      rw [pow_ten_split hge, ← mul_assoc] at hmul
      exact mul_right_cancel₀ (pow_ten_pos scale).ne' hmul
    have hle : |c| ≤ |d.coeff| := by
      rw [hc, abs_mul, abs_of_pos (pow_ten_pos (d.scale - scale))]
      exact le_mul_of_one_le_right (abs_nonneg c) (pow_ten_pos (d.scale - scale))
    exact lt_of_le_of_lt hle (abs_coeff_lt d)

/-- A number that some decimal stands for is fitted without rounding. -/
theorem fit?_of_representable {c : ℤ} (dropped : ℕ) {kept : ℕ} (hk : kept ≤ 28)
    (h : Representable (c / 10 ^ kept)) :
    ∃ d, fit? (c * 10 ^ dropped) dropped kept = some d ∧ d.value = c / 10 ^ kept := by
  have hround (c : ℤ) (n : ℕ) : roundMagnitude (roundHalfEven · (10 ^ n)) (c * 10 ^ n) = c := by
    have hn := roundMagnitude_mul c (Nat.pow_pos (n := n) (show 0 < 10 by decide))
    push_cast at hn
    exact hn
  induction kept generalizing c dropped with
  | zero =>
    rcases coeff_of_representable h with hc | ⟨c', _, hpos⟩
    · obtain ⟨d, hd, hdc, hds⟩ := ofParts?_of_lt hc hk
      refine ⟨d, ?_, by rw [value, hdc, hds]⟩
      rw [fit?_zero, hround, hd]
    · exact absurd hpos (lt_irrefl 0)
  | succ kept ih =>
    rw [fit?_succ, hround]
    cases hp : ofParts? c (kept + 1) with
    | some d =>
      obtain ⟨hdc, hds⟩ := ofParts?_eq_some hp
      exact ⟨d, rfl, by rw [value, hdc, hds]⟩
    | none =>
      -- a coefficient that does not fit ends in a zero, and can do without that place
      rcases coeff_of_representable h with hc | ⟨c', rfl, -⟩
      · obtain ⟨d, hd, -⟩ := ofParts?_of_lt hc hk
        rw [hp] at hd
        exact absurd hd (by simp)
      · have hq : ((c' * 10 : ℤ) : ℚ) / 10 ^ (kept + 1) = c' / 10 ^ kept := by
          push_cast
          rw [pow_succ, mul_div_mul_right _ _ (by norm_num)]
        rw [hq] at h ⊢
        obtain ⟨d, hd, hv⟩ := ih (dropped + 1) (by omega) h
        refine ⟨d, ?_, hv⟩
        rw [mul_assoc, ← pow_succ']
        exact hd

/-- A fitted number is off by at most half a unit of its last place. -/
theorem abs_value_fit?_sub_le {c : ℤ} {dropped kept : ℕ} {d : Decimal}
    (h : fit? c dropped kept = some d) :
    |d.value - c / 10 ^ (dropped + kept)| ≤ 1 / 2 / 10 ^ d.scale := by
  have hround {n k : ℕ} {e : Decimal}
      (he : ofParts? (roundMagnitude (roundHalfEven · (10 ^ n)) c) k = some e) :
      |e.value - c / 10 ^ (n + k)| ≤ 1 / 2 / 10 ^ e.scale := by
    obtain ⟨hc, hs⟩ := ofParts?_eq_some he
    have hz := two_mul_abs_roundMagnitude_sub_le c (Nat.pow_pos (n := n) (show 0 < 10 by decide))
    rw [← hc] at hz
    have hq : 2 * |(e.coeff * 10 ^ n - c : ℚ)| ≤ 10 ^ n := by
      exact_mod_cast hz
    have hn : (0 : ℚ) < 10 ^ n := by positivity
    have hk : (0 : ℚ) < 10 ^ k := by positivity
    have hdiff : e.value - c / 10 ^ (n + k) = (e.coeff * 10 ^ n - c) / (10 ^ n * 10 ^ k) := by
      rw [value, hs, pow_add]
      field_simp
    rw [hdiff, hs, abs_div, abs_of_pos (mul_pos hn hk), div_div, div_le_div_iff₀ (mul_pos hn hk)
      (mul_pos two_pos hk)]
    nlinarith
  induction kept generalizing dropped with
  | zero => exact hround h
  | succ kept ih =>
    rw [fit?] at h
    split at h
    · rename_i found hf
      rw [← Option.some.inj h]
      exact hround hf
    · have := ih h
      rw [show dropped + 1 + kept = dropped + (kept + 1) by omega] at this
      exact this

/-! ## Sums -/

theorem value_eq_coeffAt {d : Decimal} {scale : ℕ} (h : d.scale ≤ scale) :
    d.value = d.coeffAt scale / 10 ^ scale := by
  have h0 := pow_ten_ne_zero d.scale
  have h1 := pow_ten_ne_zero scale
  rw [value, coeffAt_eq]
  push_cast
  rw [pow_ten_sub h]
  field_simp

/-- The exact sum at the larger of the two scales. -/
theorem value_add_value (a b : Decimal) :
    a.value + b.value = (a.coeffAt (max a.scale b.scale) + b.coeffAt (max a.scale b.scale) : ℤ) /
      10 ^ max a.scale b.scale := by
  rw [value_eq_coeffAt (le_max_left a.scale b.scale),
    value_eq_coeffAt (le_max_right a.scale b.scale)]
  push_cast
  rw [add_div]

/-- A sum that some decimal stands for is found, and is exact. -/
theorem add?_of_representable {a b : Decimal} (h : Representable (a.value + b.value)) :
    ∃ d, a.add? b = some d ∧ d.value = a.value + b.value := by
  unfold add?
  split
  · rename_i ha
    rw [magnitude_eq_zero_iff.1 ha, zero_add]
    exact ⟨b, rfl, rfl⟩
  · split
    · rename_i hb
      rw [magnitude_eq_zero_iff.1 hb, add_zero]
      exact ⟨a, rfl, rfl⟩
    · rw [value_add_value] at h ⊢
      have hs := max_le a.scale_le b.scale_le
      obtain ⟨d, hd, hv⟩ := fit?_of_representable 0 hs h
      rw [pow_zero, mul_one] at hd
      exact ⟨d, hd, hv⟩

/-- A sum that is found is exact only if some decimal stands for the exact one. -/
theorem value_add?_eq_iff {a b d : Decimal} (h : a.add? b = some d) :
    d.value = a.value + b.value ↔ Representable (a.value + b.value) := by
  constructor
  · intro hv
    exact ⟨d, hv⟩
  · intro hr
    obtain ⟨e, he, hv⟩ := add?_of_representable hr
    rw [h] at he
    rw [Option.some.inj he]
    exact hv

/-- A sum is off by at most half a unit of its last place. -/
theorem abs_value_add?_sub_le {a b d : Decimal} (h : a.add? b = some d) :
    |d.value - (a.value + b.value)| ≤ 1 / 2 / 10 ^ d.scale := by
  have hpos : (0 : ℚ) ≤ 1 / 2 / 10 ^ d.scale := by positivity
  unfold add? at h
  split at h
  · rename_i ha
    rw [← Option.some.inj h, magnitude_eq_zero_iff.1 ha, zero_add, sub_self, abs_zero,
      Option.some.inj h]
    exact hpos
  · split at h
    · rename_i hb
      rw [← Option.some.inj h, magnitude_eq_zero_iff.1 hb, add_zero, sub_self, abs_zero,
        Option.some.inj h]
      exact hpos
    · have hfit := abs_value_fit?_sub_le h
      rw [zero_add] at hfit
      rw [value_add_value]
      exact hfit

/-! ## Differences -/

theorem sub?_of_representable {a b : Decimal} (h : Representable (a.value - b.value)) :
    ∃ d, a.sub? b = some d ∧ d.value = a.value - b.value := by
  rw [sub_eq_add_neg, ← value_negate] at h ⊢
  exact add?_of_representable h

theorem value_sub?_eq_iff {a b d : Decimal} (h : a.sub? b = some d) :
    d.value = a.value - b.value ↔ Representable (a.value - b.value) := by
  rw [sub_eq_add_neg, ← value_negate]
  exact value_add?_eq_iff h

theorem abs_value_sub?_sub_le {a b d : Decimal} (h : a.sub? b = some d) :
    |d.value - (a.value - b.value)| ≤ 1 / 2 / 10 ^ d.scale := by
  rw [sub_eq_add_neg a.value, ← value_negate]
  exact abs_value_add?_sub_le h

/-! ## Money at cents -/

/-- Money at cents is added at cents, as long as the sum fits in 96 bits. -/
theorem add?_at_cents {a b : Decimal} (ha : a.scale = 2) (hb : b.scale = 2)
    (h : |a.cents + b.cents| < 2 ^ 96) :
    ∃ d, a.add? b = some d ∧ d.scale = 2 ∧ d.value = a.value + b.value := by
  unfold add?
  split
  · rename_i h0
    rw [magnitude_eq_zero_iff.1 h0, zero_add]
    exact ⟨b, rfl, hb, rfl⟩
  · split
    · rename_i h0
      rw [magnitude_eq_zero_iff.1 h0, add_zero]
      exact ⟨a, rfl, ha, rfl⟩
    · have hcoeff : |a.coeff + b.coeff| < 2 ^ 96 := by
        rw [cents_eq_coeff ha, cents_eq_coeff hb] at h
        exact_mod_cast h
      obtain ⟨d, hd, hdc, hds⟩ := ofParts?_of_lt hcoeff (show 2 ≤ 28 by decide)
      refine ⟨d, ?_, hds, ?_⟩
      · simp only [ha, hb, max_self, coeffAt_eq, Nat.sub_self, pow_zero, mul_one]
        rw [fit?_succ, roundMagnitude_one, hd]
      · rw [value, value, value, hdc, hds, ha, hb]
        push_cast
        rw [add_div]

theorem sub?_at_cents {a b : Decimal} (ha : a.scale = 2) (hb : b.scale = 2)
    (h : |a.cents - b.cents| < 2 ^ 96) :
    ∃ d, a.sub? b = some d ∧ d.scale = 2 ∧ d.value = a.value - b.value := by
  rw [sub_eq_add_neg, ← cents_negate] at h
  rw [sub_eq_add_neg, ← value_negate]
  exact add?_at_cents ha (by rw [scale_negate, hb]) h

end TransferDesk.Decimal
