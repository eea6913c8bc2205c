import TransferDesk.Proofs.Decimal.Limits
import TransferDesk.Proofs.Exactness
/-!
# Which way the balances of a transfer move

A transfer is settled between two accounts whatever their balances are: of either sign, with any
places, up to the limit of 96 bits. A new balance may have to be rounded, and still it never moves
the wrong way (`Posting.Straight`): the source is left with something between nothing and what it
had, and the target has no less than it had.

The source covers what is taken from it, so there always is a difference. If a transfer is refused
for its size, it is for the sum at the target (`overflow_of_credit`).
-/

namespace TransferDesk

/-- Whether some decimal with just so many places stands for exactly this number. -/
def Decimal.RepresentableAt (places : ℕ) (q : ℚ) : Prop :=
  ∃ d : Decimal, d.scale = places ∧ d.value = q

/-- A balance that is not exact was not for want of places: no number of them is enough. -/
theorem Decimal.Keeps.not_representableAt {d : Decimal} {q : ℚ} (h : d.Keeps q)
    (hrounded : d.value ≠ q) (places : ℕ) : ¬ RepresentableAt places q := by
  rintro ⟨e, -, he⟩
  exact hrounded (h.exact_iff.2 ⟨e, he⟩)

/-- What a transfer of an amount between two accounts comes to, if nothing moves the wrong way. A
balance that is not the exact one is one that had to be rounded: with the places of the balance
before or of the amount, whichever are more and however the amount is written, no decimal stands for
the exact one. -/
structure Posting.Straight (p : Posting) (source target : Account) (amount : Decimal) : Prop where
  booked : p.amount.value = amount.value
  covered : 0 ≤ p.sourceBalance.value
  debited : p.sourceBalance.value ≤ source.balance.value
  credited : target.balance.value ≤ p.targetBalance.value
  difference : p.sourceBalance.value ≠ source.balance.value - amount.value →
    ∀ written : Decimal, written.value = amount.value →
      ¬ Decimal.RepresentableAt (max source.balance.scale written.scale)
        (source.balance.value - amount.value)
  sum : p.targetBalance.value ≠ target.balance.value + amount.value →
    ∀ written : Decimal, written.value = amount.value →
      ¬ Decimal.RepresentableAt (max target.balance.scale written.scale)
        (target.balance.value + amount.value)

namespace Settled

variable {source target : Account} {amount : Decimal} {p : Posting}

/-- The amount is above zero, and the source has it. -/
theorem amount_covered (h : Settled source target amount p) :
    0 < amount.value ∧ amount.value ≤ source.balance.value := by
  constructor
  · exact Decimal.positive_iff_value_pos.1 h.positive
  · exact not_lt.1 (mt Decimal.lt_asMoney_iff.2 h.funds)

/-- The source is not debited below zero. -/
theorem sourceBalance_nonneg (h : Settled source target amount p) : 0 ≤ p.sourceBalance.value := by
  apply Decimal.value_sub?_nonneg h.debit
  rw [Decimal.value_asMoney]
  exact h.amount_covered.2

/-- The source does not gain by a debit. -/
theorem sourceBalance_le (h : Settled source target amount p) :
    p.sourceBalance.value ≤ source.balance.value := by
  rcases h.amount_covered with ⟨hpositive, hcovered⟩
  rw [← Decimal.value_asMoney amount] at hpositive hcovered
  exact Decimal.value_sub?_le h.debit hpositive.le hcovered

/-- The target does not lose by a credit. -/
theorem le_targetBalance (h : Settled source target amount p) :
    target.balance.value ≤ p.targetBalance.value := by
  apply Decimal.le_value_add? h.credit
  rw [Decimal.value_asMoney]
  exact h.amount_covered.1.le

theorem straight (h : Settled source target amount p) : p.Straight source target amount := by
  rcases Scope.keeps_of_settled h with ⟨hdifference, hsum⟩
  exact {
    booked := by rw [h.booked, Decimal.value_asMoney]
    covered := h.sourceBalance_nonneg
    debited := h.sourceBalance_le
    credited := h.le_targetBalance
    difference := fun hrounded _ _ => hdifference.not_representableAt hrounded _
    sum := fun hrounded _ _ => hsum.not_representableAt hrounded _ }

end Settled

/-- A transfer that is refused for its size is refused for the sum at the target. -/
theorem overflow_of_credit {source target : Account} {amount : Decimal} {operation : String}
    {id : AccountId} (h : settle source target amount = .error (.overflow operation id)) :
    operation = "transfer credit" ∧ id = target.id ∧ target.balance.add? amount.asMoney = none := by
  rcases settle_eq_overflow h with ⟨hpositive, -, -, hfunds, ⟨-, -, hdebit⟩ | hcredit⟩
  · -- the source covers the amount, so there is a difference
    rcases Decimal.exists_sub?_asMoney (Decimal.positive_iff_value_pos.1 hpositive).le
      (not_lt.1 (mt Decimal.lt_asMoney_iff.2 hfunds)) with ⟨difference, hdifference⟩
    rw [hdebit] at hdifference
    cases hdifference
  · exact hcredit

/-- Between any two accounts and for any amount:

* no transfer is refused because the balance of the source would be out of bounds after the debit;
* a transfer that is settled moves the number that was asked for, and moves it the right way. The
source keeps something between nothing and what it had, the target gets no less than it had, and
either balance is the exact one unless that cannot be written with the places of the balance before
or of the amount, whichever are more. -/
theorem settled_straight (source target : Account) (amount : Decimal) :
    (∀ id, settle source target amount ≠ .error (.overflow "transfer debit" id)) ∧
    ∀ p, settle source target amount = .ok p → p.Straight source target amount := by
  constructor
  · intro id h
    rcases overflow_of_credit h with ⟨hoperation, -⟩
    exact absurd hoperation (by decide)
  · intro p h
    exact (settle_eq_ok_iff.1 h).straight

/-- An account whose balance takes up all 96 bits, and all the places there are. -/
def brimmed (id : AccountId) : Account where
  id := id
  balance := Decimal.ofParts (2 ^ 96 - 1) 28
  currency := "USD"

/-- Five, with a place more than money has. -/
def fiveWhole : Decimal :=
  Decimal.ofParts 5000 3

/-- What it comes to if the one pays five to the other. The sum has to give up a place, and a half
goes up. -/
def fivePaid : Posting where
  amount := Decimal.ofParts 500 2
  sourceBalance := Decimal.ofParts 29228162514264337593543950335 28
  targetBalance := Decimal.ofParts 12922816251426433759354395034 27

/-- The difference is exact. The sum is not: it is too large for the 28 places of the balance. -/
theorem brimmed_straight :
    settle (brimmed 1) (brimmed 2) fiveWhole = .ok fivePaid ∧
    fivePaid.Straight (brimmed 1) (brimmed 2) fiveWhole ∧
    fivePaid.sourceBalance.value = (brimmed 1).balance.value - fiveWhole.value ∧
    fivePaid.targetBalance.value ≠ (brimmed 2).balance.value + fiveWhole.value ∧
    ¬ Decimal.RepresentableAt 28 ((brimmed 2).balance.value + fiveWhole.value) := by
  have hsettled : settle (brimmed 1) (brimmed 2) fiveWhole = .ok fivePaid := by
    decide +kernel
  have hstraight := (settled_straight (brimmed 1) (brimmed 2) fiveWhole).2 fivePaid hsettled
  have hbalance (id : AccountId) : (brimmed id).balance.value = (2 ^ 96 - 1) / 10 ^ 28 := by
    show (Decimal.ofParts (2 ^ 96 - 1) 28).value = _
    rw [Decimal.value_ofParts (by norm_num) (by norm_num)]
    norm_num
  have hamount : fiveWhole.value = 5 := by
    show (Decimal.ofParts 5000 3).value = 5
    rw [Decimal.value_ofParts (by norm_num) (by norm_num)]
    norm_num
  have hdifference : fivePaid.sourceBalance.value =
      (brimmed 1).balance.value - fiveWhole.value := by
    show (Decimal.ofParts 29228162514264337593543950335 28).value = _
    rw [Decimal.value_ofParts (by norm_num) (by norm_num), hbalance, hamount]
    norm_num
  have hsum : fivePaid.targetBalance.value ≠ (brimmed 2).balance.value + fiveWhole.value := by
    show (Decimal.ofParts 12922816251426433759354395034 27).value ≠ _
    rw [Decimal.value_ofParts (by norm_num) (by norm_num), hbalance, hamount]
    norm_num
  exact ⟨hsettled, hstraight, hdifference, hsum, hstraight.sum hsum fiveWhole rfl⟩

end TransferDesk
