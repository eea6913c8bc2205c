import TransferDesk.Proofs.Decimal.Direction
/-!
# When a sum has no result

A sum has no result if it does not fit in 96 bits without any places either. That depends on the
exact sum alone, whatever the scales: it has to be within half a unit of `2 ^ 96`
(`add?_eq_none_iff`). So a difference between zero and the number that is taken from always has one
(`exists_sub?_of_le`).
-/

namespace TransferDesk.Decimal

/-- A number of `2 ^ 96 - 1 / 2` units or more is rounded to `2 ^ 96` or more: a half goes up, since
`2 ^ 96 - 1` is odd. -/
theorem le_roundHalfEven {n p : ℕ} (hp : 0 < p) (h : 2 * 2 ^ 96 * p ≤ 2 * n + p) :
    2 ^ 96 ≤ roundHalfEven n p := by
  have hdiv : p * (n / p) + n % p = n := Nat.div_add_mod n p
  have hmod : n % p < p := Nat.mod_lt n hp
  unfold roundHalfEven
  simp only
  rcases Nat.lt_or_ge (n / p) (2 ^ 96) with hless | hge
  · -- the whole part is just below the limit, and the rest is a half or more
    have hlast : n / p = 2 ^ 96 - 1 := by
      by_contra hne
      have hbelow : n / p ≤ 2 ^ 96 - 2 := by omega
      have hmul : p * (n / p) ≤ p * (2 ^ 96 - 2) := Nat.mul_le_mul_left p hbelow
      omega
    rw [hlast] at hdiv ⊢
    rw [if_pos]
    · norm_num
    · have hhalf : p ≤ 2 * (n % p) := by omega
      rcases Nat.lt_or_eq_of_le hhalf with hmore | heq
      · exact Or.inl hmore
      · exact Or.inr ⟨heq.symm, by norm_num⟩
  · split <;> omega

/-- Exactly the numbers from half a unit below `2 ^ 96` on are rounded to `2 ^ 96` or more. -/
theorem le_abs_roundMagnitude_iff (c : ℤ) {p : ℕ} (hp : 0 < p) :
    2 ^ 96 ≤ |roundMagnitude (roundHalfEven · p) c| ↔ (2 ^ 96 - 1 / 2 : ℚ) * p ≤ |(c : ℚ)| := by
  constructor
  · exact le_abs_of_le_abs_roundMagnitude hp
  · intro h
    have hsize : |roundMagnitude (roundHalfEven · p) c| = roundHalfEven c.natAbs p := by
      unfold roundMagnitude
      split <;> simp
    have hnat : 2 * 2 ^ 96 * p ≤ 2 * c.natAbs + p := by
      have habs : |(c : ℚ)| = c.natAbs := by
        rw [Nat.cast_natAbs, Int.cast_abs]
      rw [habs] at h
      have htwice : (2 * 2 ^ 96 * p : ℚ) ≤ 2 * c.natAbs + p := by linarith
      exact_mod_cast htwice
    rw [hsize]
    exact_mod_cast le_roundHalfEven hp hnat

theorem ofParts?_eq_none_iff {c : ℤ} {scale : ℕ} (hs : scale ≤ 28) :
    ofParts? c scale = none ↔ 2 ^ 96 ≤ |c| := by
  constructor
  · intro hnone
    by_contra hless
    obtain ⟨d, hd, -⟩ := ofParts?_of_lt (not_le.1 hless) hs
    rw [hnone] at hd
    cases hd
  · intro hlarge
    rcases hparts : ofParts? c scale with _ | d
    · rfl
    · rw [← (ofParts?_eq_some hparts).1] at hlarge
      exact absurd (abs_coeff_lt d) (not_lt.2 hlarge)

/-- A number is fitted at no scale if it does not fit without places. -/
theorem fit?_eq_none_iff {c : ℤ} {dropped kept : ℕ} (hk : kept ≤ 28) :
    fit? c dropped kept = none ↔
      (2 ^ 96 - 1 / 2 : ℚ) ≤ |(c : ℚ) / 10 ^ (dropped + kept)| := by
  -- what is left of the number when so many places are dropped does not fit
  have hround (n : ℕ) : 2 ^ 96 ≤ |roundMagnitude (roundHalfEven · (10 ^ n)) c| ↔
      (2 ^ 96 - 1 / 2 : ℚ) * 10 ^ n ≤ |(c : ℚ)| := by
    rw [le_abs_roundMagnitude_iff c (Nat.pow_pos (n := n) (show 0 < 10 by decide))]
    push_cast
    rfl
  have hquot (n : ℕ) : (2 ^ 96 - 1 / 2 : ℚ) ≤ |(c : ℚ) / 10 ^ n| ↔
      (2 ^ 96 - 1 / 2 : ℚ) * 10 ^ n ≤ |(c : ℚ)| := by
    have hn : (0 : ℚ) < 10 ^ n := by positivity
    rw [abs_div, abs_of_pos hn, le_div_iff₀ hn]
  induction kept generalizing dropped with
  | zero => rw [fit?_zero, ofParts?_eq_none_iff hk, hround, Nat.add_zero, hquot]
  | succ kept ih =>
    have hrest := @ih (dropped + 1) (by omega)
    rw [show dropped + 1 + kept = dropped + (kept + 1) by omega] at hrest
    refine Iff.trans ?_ hrest
    rw [fit?_succ]
    constructor
    · intro h
      split at h
      · cases h
      · exact h
    · intro h
      -- what does not fit without places does not fit with some of them either
      have hlarge : (2 ^ 96 - 1 / 2 : ℚ) * 10 ^ dropped ≤ |(c : ℚ)| := by
        refine le_trans ?_ ((hquot _).1 (hrest.1 h))
        apply mul_le_mul_of_nonneg_left _ (by norm_num)
        exact pow_le_pow_right₀ (by norm_num) (by omega)
      rw [(ofParts?_eq_none_iff hk).2 ((hround dropped).2 hlarge)]
      exact h

/-! ## Sums and differences -/

theorem abs_value_le (d : Decimal) : |d.value| ≤ 2 ^ 96 - 1 := by
  have h := abs_value_mul_pow_lt (Nat.zero_le d.scale)
  rwa [pow_zero, mul_one] at h

/-- A sum has no result if the exact one is out of bounds, by half a unit or more. -/
theorem add?_eq_none_iff {a b : Decimal} :
    a.add? b = none ↔ (2 ^ 96 - 1 / 2 : ℚ) ≤ |a.value + b.value| := by
  unfold add?
  split
  · rename_i ha
    have hb := b.abs_value_le
    rw [magnitude_eq_zero_iff.1 ha, zero_add]
    refine iff_of_false (by simp) ?_
    intro hlarge
    linarith
  · split
    · rename_i hb
      have ha := a.abs_value_le
      rw [magnitude_eq_zero_iff.1 hb, add_zero]
      refine iff_of_false (by simp) ?_
      intro hlarge
      linarith
    · rw [fit?_eq_none_iff (max_le a.scale_le b.scale_le), zero_add, value_add_value]

/-- Whether a sum has a result does not depend on the scale of what is added. -/
theorem add?_eq_none_congr {a b c : Decimal} (h : b.value = c.value) :
    a.add? b = none ↔ a.add? c = none := by
  rw [add?_eq_none_iff, add?_eq_none_iff, h]

/-- To take from a number no more than it is has a result. -/
theorem exists_sub?_of_le {a b : Decimal} (hb : 0 ≤ b.value) (h : b.value ≤ a.value) :
    ∃ d, a.sub? b = some d := by
  rcases hsub : a.sub? b with _ | d
  · have hlarge := add?_eq_none_iff.1 hsub
    have ha := a.abs_value_le
    rw [abs_of_nonneg (by linarith)] at ha
    rw [value_negate, abs_of_nonneg (by linarith)] at hlarge
    linarith
  · exact ⟨d, rfl⟩

/-- An amount that a balance covers can be taken from it, as it is booked. -/
theorem exists_sub?_asMoney {balance amount : Decimal} (hpositive : 0 ≤ amount.value)
    (hcovered : amount.value ≤ balance.value) : ∃ d, balance.sub? amount.asMoney = some d := by
  rw [← value_asMoney amount] at hpositive hcovered
  exact exists_sub?_of_le hpositive hcovered

end TransferDesk.Decimal
