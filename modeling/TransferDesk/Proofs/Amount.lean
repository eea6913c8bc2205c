import TransferDesk.Proofs.Decimal.Canonical
import TransferDesk.Proofs.Scope.Shown
/-!
# Which amounts can be moved

An amount is accepted if it is above zero and comes to whole cents, and it is brought to the places
of money then. How it was written has no say in either (`amount_judged_by_number`): amounts of one
number are all accepted as one and the same decimal, or are all refused. What is accepted is
accepted once more as it stands.
-/

namespace TransferDesk

/-- An amount is refused because it is not above zero, or else because it is no whole number of
cents. -/
theorem checkAmount_eq_error_iff {amount : Decimal} {fault : Fault} :
    checkAmount amount = .error fault ↔
      (amount.value ≤ 0 ∧ fault = .invalidAmount amount.toText "amount must be positive") ∨
      (0 < amount.value ∧ (¬ ∃ n : ℤ, amount.cents = n) ∧
        fault = .invalidAmount amount.toText "amount must have at most 2 decimal places") := by
  have hpositive : amount.Positive ↔ 0 < amount.value := Decimal.positive_iff_value_pos
  have hmoney : ¬ amount.ExceedsMoney ↔ ∃ n : ℤ, amount.cents = n := Decimal.not_exceedsMoney_iff
  rw [← not_lt, ← hpositive, ← hmoney, not_not]
  unfold checkAmount
  constructor
  · intro h
    split at h
    · rename_i hzero
      exact Or.inl ⟨hzero, (Except.error.inj h).symm⟩
    · rename_i hzero
      split at h
      · rename_i hexceeds
        exact Or.inr ⟨not_not.1 hzero, hexceeds, (Except.error.inj h).symm⟩
      · cases h
  · rintro (⟨hzero, rfl⟩ | ⟨habove, hexceeds, rfl⟩)
    · rw [if_pos hzero]
    · rw [if_neg (not_not_intro habove), if_pos hexceeds]

theorem exists_checkAmount_iff {amount : Decimal} :
    (∃ booked, checkAmount amount = .ok booked) ↔ 0 < amount.value ∧ ∃ n : ℤ, amount.cents = n := by
  constructor
  · rintro ⟨booked, h⟩
    obtain ⟨hpositive, hmoney, -⟩ := checkAmount_eq_ok_iff.1 h
    exact ⟨Decimal.positive_iff_value_pos.1 hpositive, Decimal.not_exceedsMoney_iff.1 hmoney⟩
  · rintro ⟨hpositive, hcents⟩
    refine ⟨amount.asMoney, checkAmount_eq_ok_iff.2 ⟨?_, ?_, rfl⟩⟩
    · exact Decimal.positive_iff_value_pos.2 hpositive
    · exact Decimal.not_exceedsMoney_iff.2 hcents

/-- Amounts of one number are accepted as one decimal. -/
theorem checkAmount_congr {amount other booked : Decimal} (hsame : other.value = amount.value)
    (h : checkAmount amount = .ok booked) : checkAmount other = .ok booked := by
  obtain ⟨hpositive, hmoney, rfl⟩ := checkAmount_eq_ok_iff.1 h
  refine checkAmount_eq_ok_iff.2 ⟨?_, ?_, (Decimal.asMoney_congr hsame).symm⟩
  · rw [Decimal.positive_iff_value_pos] at hpositive ⊢
    rwa [hsame]
  · rwa [Decimal.exceedsMoney_congr hsame]

/-- An amount is judged by its number, whatever its places are.

* It is accepted if and only if it is above zero and a whole number of cents.
* It is refused as not positive if and only if it is not above zero, and for its places if it is
  above zero and no whole number of cents. The fault shows it as it was given.
* What is accepted stands for the number that was given, with the most places, up to two, with which
  that number fits in 96 bits. Every other amount of the same number is accepted as the very same
  decimal, and so is what has been accepted. -/
theorem amount_judged_by_number (amount : Decimal) :
    ((∃ booked, checkAmount amount = .ok booked) ↔ 0 < amount.value ∧ ∃ n : ℤ, amount.cents = n) ∧
    (∀ fault, checkAmount amount = .error fault ↔
      (amount.value ≤ 0 ∧ fault = .invalidAmount amount.toText "amount must be positive") ∨
      (0 < amount.value ∧ (¬ ∃ n : ℤ, amount.cents = n) ∧
        fault = .invalidAmount amount.toText "amount must have at most 2 decimal places")) ∧
    ∀ booked, checkAmount amount = .ok booked →
      booked.value = amount.value ∧
      IsGreatest {places | places ≤ 2 ∧ ∃ c : ℤ, |c| < 2 ^ 96 ∧ amount.value = c / 10 ^ places}
        booked.scale ∧
      (∀ other : Decimal, other.value = amount.value → checkAmount other = .ok booked) ∧
      checkAmount booked = .ok booked := by
  refine ⟨exists_checkAmount_iff, fun fault => checkAmount_eq_error_iff, ?_⟩
  intro booked h
  obtain ⟨-, hmoney, hbooked⟩ := checkAmount_eq_ok_iff.1 h
  have hvalue : booked.value = amount.value := by
    rw [hbooked, Decimal.value_asMoney]
  refine ⟨hvalue, ?_, fun other hsame => checkAmount_congr hsame h, checkAmount_congr hvalue h⟩
  rw [hbooked]
  exact Decimal.isGreatest_scale_asMoney hmoney

/-- An amount that fits in 96 bits with one place, and not with two. It is written without any. -/
def roundFortune : Decimal :=
  Decimal.ofParts 7922816251426433759354395030 0

/-- It is accepted with the one place, and no other way of writing it makes a difference. -/
theorem roundFortune_judged :
    checkAmount roundFortune = .ok (Decimal.ofParts 79228162514264337593543950300 1) ∧
    (Decimal.ofParts 79228162514264337593543950300 1).value = roundFortune.value ∧
    IsGreatest
      {places | places ≤ 2 ∧ ∃ c : ℤ, |c| < 2 ^ 96 ∧ roundFortune.value = c / 10 ^ places} 1 ∧
    (∀ other : Decimal, other.value = roundFortune.value →
      checkAmount other = .ok (Decimal.ofParts 79228162514264337593543950300 1)) ∧
    checkAmount (Decimal.ofParts 79228162514264337593543950300 1) =
      .ok (Decimal.ofParts 79228162514264337593543950300 1) := by
  have haccepted : checkAmount roundFortune =
      .ok (Decimal.ofParts 79228162514264337593543950300 1) := by
    decide +kernel
  exact ⟨haccepted, (amount_judged_by_number roundFortune).2.2 _ haccepted⟩

end TransferDesk
