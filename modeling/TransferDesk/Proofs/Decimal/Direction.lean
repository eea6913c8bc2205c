import TransferDesk.Proofs.Decimal.Sum
/-!
# In which direction a sum moves

A sum that is rounded can be off by half a unit, but it never moves the wrong way: adding what is
not negative gives no less (`le_value_add?`), and a sum that is not negative is not rounded below
zero (`value_add?_nonneg`). To take from a number no more than it is gives neither less than nothing
(`value_sub?_nonneg`) nor more than the number (`value_sub?_le`).

Both follow from the distance to the exact sum as long as the result has the places of the number
that it is compared with. If it has fewer, they were given up because the sum did not fit with one
place more (`le_of_scale_fit?_lt`). Since `2 ^ 96` ends in a six, a number that large is rounded up
when its last place is given up.
-/

namespace TransferDesk.Decimal

/-- A rounding to `2 ^ 96` or more is one of a number that is at most a half below it. -/
theorem le_abs_of_le_abs_roundMagnitude {c : ℤ} {p : ℕ} (hp : 0 < p)
    (h : 2 ^ 96 ≤ |roundMagnitude (roundHalfEven · p) c|) :
    (2 ^ 96 - 1 / 2 : ℚ) * p ≤ |(c : ℚ)| := by
  have hnear := two_mul_abs_roundMagnitude_sub_le c hp
  have hp' : (0 : ℤ) < p := by exact_mod_cast hp
  have htriangle := abs_sub_abs_le_abs_sub (roundMagnitude (roundHalfEven · p) c * p) c
  rw [abs_mul, abs_of_pos hp'] at htriangle
  have hlarge : (2 : ℤ) ^ 96 * p ≤ |roundMagnitude (roundHalfEven · p) c| * p :=
    mul_le_mul_of_nonneg_right h hp'.le
  have hint : (2 * 2 ^ 96 - 1) * (p : ℤ) ≤ 2 * |c| := by
    linarith
  have hrat : (2 * 2 ^ 96 - 1) * (p : ℚ) ≤ 2 * |(c : ℚ)| := by
    exact_mod_cast hint
  linarith

/-- Places are given up only if the number does not fit with one place more. -/
theorem le_of_scale_fit?_lt {c : ℤ} {dropped kept : ℕ} {d : Decimal}
    (h : fit? c dropped kept = some d) (hk : kept ≤ 28) (hs : d.scale < kept) :
    (2 ^ 96 - 1 / 2 : ℚ) ≤ |(c : ℚ) / 10 ^ (dropped + kept)| * 10 ^ (d.scale + 1) := by
  induction kept generalizing dropped with
  | zero => exact absurd hs (Nat.not_lt_zero d.scale)
  | succ kept ih =>
    rw [fit?_succ] at h
    split at h
    · -- fitted at this scale, so no place was given up
      rename_i found hfound
      rw [← Option.some.inj h, (ofParts?_eq_some hfound).2] at hs
      exact absurd hs (lt_irrefl _)
    · rename_i hnone
      rcases Nat.lt_or_ge d.scale kept with hless | hge
      · have hrest := ih h (by omega) hless
        rw [show dropped + 1 + kept = dropped + (kept + 1) by omega] at hrest
        exact hrest
      · have hscale : d.scale = kept := le_antisymm (scale_fit?_le h) hge
        have hlarge : (2 : ℤ) ^ 96 ≤ |roundMagnitude (roundHalfEven · (10 ^ dropped)) c| := by
          by_contra hlt
          obtain ⟨found, hfound, -⟩ := ofParts?_of_lt (not_le.1 hlt) hk
          rw [hnone] at hfound
          exact absurd hfound (by simp)
        have hc := le_abs_of_le_abs_roundMagnitude
          (Nat.pow_pos (n := dropped) (show 0 < 10 by decide)) hlarge
        have hd : (0 : ℚ) < 10 ^ dropped := by positivity
        have hk' : (0 : ℚ) < 10 ^ (kept + 1) := by positivity
        have hcancel : |(c : ℚ) / 10 ^ (dropped + (kept + 1))| * 10 ^ (kept + 1) =
            |(c : ℚ)| / 10 ^ dropped := by
          rw [abs_div, abs_of_pos (by positivity : (0 : ℚ) < 10 ^ (dropped + (kept + 1))), pow_add]
          field_simp
        rw [hscale, hcancel, le_div_iff₀ hd]
        exact_mod_cast hc

/-- In units of its last place, a sum is at most half a unit off. -/
theorem abs_coeff_add?_sub_le {a b d : Decimal} (h : a.add? b = some d) :
    |(d.coeff : ℚ) - (a.value + b.value) * 10 ^ d.scale| ≤ 1 / 2 := by
  have hs : (0 : ℚ) < 10 ^ d.scale := by positivity
  rw [← value_mul_pow, ← sub_mul, abs_mul, abs_of_pos hs, ← le_div_iff₀ hs]
  exact abs_value_add?_sub_le h

/-- A sum does not fall below a number of units of its last place that is less than half a unit
above the exact sum. -/
theorem le_coeff_add? {a b d : Decimal} (h : a.add? b = some d) {n : ℤ}
    (hn : (n : ℚ) - 1 / 2 < (a.value + b.value) * 10 ^ d.scale) : n ≤ d.coeff := by
  have hnear := (abs_le.1 (abs_coeff_add?_sub_le h)).1
  have hlt : (n : ℚ) < d.coeff + 1 := by
    linarith
  have hint : n < d.coeff + 1 := by
    exact_mod_cast hlt
  omega

/-- A sum does not rise above a number of units of its last place that is less than half a unit
below the exact sum. -/
theorem coeff_add?_le {a b d : Decimal} (h : a.add? b = some d) {n : ℤ}
    (hn : (a.value + b.value) * 10 ^ d.scale < (n : ℚ) + 1 / 2) : d.coeff ≤ n := by
  have hnear := (abs_le.1 (abs_coeff_add?_sub_le h)).2
  have hlt : (d.coeff : ℚ) < n + 1 := by
    linarith
  have hint : d.coeff < n + 1 := by
    exact_mod_cast hlt
  omega

/-- A sum that is not negative is not rounded below zero. -/
theorem value_add?_nonneg {a b d : Decimal} (h : a.add? b = some d) (hsum : 0 ≤ a.value + b.value) :
    0 ≤ d.value := by
  have hs : (0 : ℚ) < 10 ^ d.scale := by positivity
  have hcoeff : 0 ≤ d.coeff := by
    apply le_coeff_add? h
    have := mul_nonneg hsum hs.le
    push_cast
    linarith
  have hcast : (0 : ℚ) ≤ d.coeff := by exact_mod_cast hcoeff
  exact div_nonneg hcast hs.le

/-- At one place more than a decimal has given up, it is within 96 bits. -/
theorem abs_value_mul_pow_lt {a : Decimal} {scale : ℕ} (h : scale ≤ a.scale) :
    |a.value| * 10 ^ scale ≤ 2 ^ 96 - 1 := by
  have hcoeff : |(a.coeff : ℚ)| ≤ 2 ^ 96 - 1 := by
    have hlt := abs_coeff_lt a
    have hle : |a.coeff| ≤ 2 ^ 96 - 1 := by omega
    exact_mod_cast hle
  have hown : |a.value| * 10 ^ a.scale = |(a.coeff : ℚ)| := by
    rw [← value_mul_pow, abs_mul, abs_of_pos (by positivity : (0 : ℚ) < 10 ^ a.scale)]
  calc |a.value| * 10 ^ scale ≤ |a.value| * 10 ^ a.scale := by
        apply mul_le_mul_of_nonneg_left _ (abs_nonneg _)
        exact pow_le_pow_right₀ (by norm_num) h
    _ = |(a.coeff : ℚ)| := hown
    _ ≤ 2 ^ 96 - 1 := hcoeff

/-- A sum gives up places of its first number only if it does not fit with one place more. -/
theorem le_of_scale_add?_lt {a b d : Decimal} (h : a.add? b = some d) (ha : a.magnitude ≠ 0)
    (hs : d.scale < a.scale) :
    (2 ^ 96 - 1 / 2 : ℚ) ≤ |a.value + b.value| * 10 ^ (d.scale + 1) := by
  unfold add? at h
  rw [if_neg ha] at h
  split at h
  · obtain rfl := Option.some.inj h
    exact absurd hs (lt_irrefl _)
  · have hmax : d.scale < max a.scale b.scale := lt_of_lt_of_le hs (le_max_left _ _)
    have hfit := le_of_scale_fit?_lt h (max_le a.scale_le b.scale_le) hmax
    rw [zero_add, ← value_add_value] at hfit
    exact hfit

/-- With places that are not fewer than its own, a number is a number of units. -/
theorem value_mul_pow_of_le {a : Decimal} {scale : ℕ} (h : a.scale ≤ scale) :
    a.value * 10 ^ scale = a.coeffAt scale := by
  rw [value_eq_coeffAt h, div_mul_cancel₀ _ (pow_ten_ne_zero scale)]

/-- A sum with the places of its first number has no fewer units than that number, if what is added
is not negative. -/
theorem le_coeff_add?_of_scale_le {a b d : Decimal} (h : a.add? b = some d) (hb : 0 ≤ b.value)
    (hs : a.scale ≤ d.scale) : a.value * 10 ^ d.scale ≤ d.coeff := by
  have hpow : (0 : ℚ) < 10 ^ d.scale := by positivity
  have hcount := value_mul_pow_of_le hs
  have hle : a.coeffAt d.scale ≤ d.coeff := by
    apply le_coeff_add? h
    rw [add_mul, hcount]
    have := mul_nonneg hb hpow.le
    linarith
  rw [hcount]
  exact_mod_cast hle

/-- A sum that gives up places of its first number has no fewer units than that number either. It
did not fit with one place more, where the number fits, and a tenth of `2 ^ 96` is rounded up. -/
theorem le_coeff_add?_of_scale_lt {a b d : Decimal} (h : a.add? b = some d) (ha : a.magnitude ≠ 0)
    (hb : 0 ≤ b.value) (hs : d.scale < a.scale) : a.value * 10 ^ d.scale ≤ d.coeff := by
  have hpow : (0 : ℚ) < 10 ^ d.scale := by positivity
  have hten : (10 : ℚ) ^ (d.scale + 1) = 10 ^ d.scale * 10 := pow_succ 10 d.scale
  have hsum := le_of_scale_add?_lt h ha hs
  have hfirst := abs_value_mul_pow_lt (show d.scale + 1 ≤ a.scale from hs)
  -- a sum below zero would be no larger than the first number, and that one fits
  have hpos : 0 ≤ a.value + b.value := by
    by_contra hneg
    have hle : |a.value + b.value| ≤ |a.value| := by
      rw [abs_of_neg (not_le.1 hneg), abs_of_nonpos (by linarith)]
      linarith
    have hmore : (0 : ℚ) ≤ 10 ^ (d.scale + 1) := by positivity
    have := mul_le_mul_of_nonneg_right hle hmore
    linarith
  rw [abs_of_nonneg hpos, hten] at hsum
  -- one tenth of 2 ^ 96, to the next whole unit
  have hcoeff : (7922816251426433759354395034 : ℤ) ≤ d.coeff := by
    apply le_coeff_add? h
    push_cast
    linarith
  have hcast : (7922816251426433759354395034 : ℚ) ≤ d.coeff := by
    exact_mod_cast hcoeff
  have hself := mul_le_mul_of_nonneg_right (le_abs_self a.value) hpow.le
  rw [hten] at hfirst
  linarith

/-- To add what is not negative gives no less. -/
theorem le_value_add? {a b d : Decimal} (h : a.add? b = some d) (hb : 0 ≤ b.value) :
    a.value ≤ d.value := by
  by_cases ha : a.magnitude = 0
  · have hzero := magnitude_eq_zero_iff.1 ha
    rw [hzero]
    apply value_add?_nonneg h
    rw [hzero, zero_add]
    exact hb
  · -- it is enough to compare the units of the last place of the sum
    have hunits : a.value * 10 ^ d.scale ≤ d.coeff := by
      rcases Nat.lt_or_ge d.scale a.scale with hless | hge
      · exact le_coeff_add?_of_scale_lt h ha hb hless
      · exact le_coeff_add?_of_scale_le h hb hge
    have hs : (0 : ℚ) < 10 ^ d.scale := by positivity
    rw [← value_mul_pow] at hunits
    exact le_of_mul_le_mul_right hunits hs

/-- A difference is not rounded below zero if the exact one is not. -/
theorem value_sub?_nonneg {a b d : Decimal} (h : a.sub? b = some d) (hle : b.value ≤ a.value) :
    0 ≤ d.value := by
  apply value_add?_nonneg h
  rw [value_negate]
  linarith

/-- A difference between zero and the number that is taken from has no fewer places than that
number: it fits with them, as the number does. -/
theorem scale_le_scale_sub? {a b d : Decimal} (h : a.sub? b = some d) (ha : a.magnitude ≠ 0)
    (hb : 0 ≤ b.value) (hle : b.value ≤ a.value) : a.scale ≤ d.scale := by
  by_contra hless
  have hsum := le_of_scale_add?_lt h ha (not_le.1 hless)
  have hfirst := abs_value_mul_pow_lt (show d.scale + 1 ≤ a.scale from not_le.1 hless)
  rw [value_negate, abs_of_nonneg (by linarith)] at hsum
  rw [abs_of_nonneg (by linarith)] at hfirst
  have hpow : (0 : ℚ) ≤ 10 ^ (d.scale + 1) := by positivity
  have hmore : (a.value + -b.value) * 10 ^ (d.scale + 1) ≤ a.value * 10 ^ (d.scale + 1) := by
    apply mul_le_mul_of_nonneg_right _ hpow
    linarith
  linarith

/-- To take from a number no more than it is leaves no more than it. -/
theorem value_sub?_le {a b d : Decimal} (h : a.sub? b = some d) (hb : 0 ≤ b.value)
    (hle : b.value ≤ a.value) : d.value ≤ a.value := by
  by_cases ha : a.magnitude = 0
  · -- nothing is taken from nothing, and nothing is left
    have hzero := magnitude_eq_zero_iff.1 ha
    unfold sub? add? at h
    rw [if_pos ha] at h
    obtain rfl := Option.some.inj h
    rw [value_negate]
    linarith
  · have hs : (0 : ℚ) < 10 ^ d.scale := by positivity
    have hcount := value_mul_pow_of_le (scale_le_scale_sub? h ha hb hle)
    have hunits : d.coeff ≤ a.coeffAt d.scale := by
      apply coeff_add?_le h
      rw [value_negate, add_mul, hcount]
      have := mul_nonneg hb hs.le
      linarith
    have hcast : (d.coeff : ℚ) ≤ a.coeffAt d.scale := by
      exact_mod_cast hunits
    rw [← hcount, ← value_mul_pow] at hcast
    exact le_of_mul_le_mul_right hcast hs

end TransferDesk.Decimal
