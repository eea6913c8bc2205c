import TransferDesk.Proofs.Decimal.Cents
import TransferDesk.Proofs.Decimal.Limits
import TransferDesk.Proofs.Scope.Balances
import TransferDesk.Proofs.Scope.Endings
/-!
# Which transfers a scope takes

The rules for an order are about numbers and not about how they are written: the amount is above
zero and a whole number of cents, the source has it, the target can hold it
(`TransferOrder.Allowed`). A scope takes every order that the rules allow and no other
(`exists_takes_iff`), whatever is staged in it. What it shows after that (`Scope.HasTaken`) is the
difference at the source, the sum at the target and all else as before.
-/

namespace TransferDesk

/-- The rules allow an order between two accounts, as a scope shows them. -/
structure TransferOrder.Allowed (order : TransferOrder) (s : Scope) (source target : Account) :
    Prop where
  writes : s.access = .readWrite
  shows_source : s.view? order.source = some source
  shows_target : s.view? order.target = some target
  distinct : order.source ≠ order.target
  positive : 0 < order.amount.value
  cents : ∃ n : ℤ, order.amount.cents = n
  currency : source.currency = target.currency
  covered : order.amount.value ≤ source.balance.value
  fits : ∃ sum, target.balance.add? order.amount = some sum

/-- A scope after it has taken an order between two of the accounts that it showed: the amount,
brought to the places of money, is taken off the one balance and put onto the other, and the order
is staged for it. -/
structure Scope.HasTaken (s : Scope) (order : TransferOrder) (source target : Account)
    (after : Scope) :
    Prop where
  source : ∃ difference, source.balance.sub? order.amount.asMoney = some difference ∧
    after.view? order.source = some { source with balance := difference }
  target : ∃ sum, target.balance.add? order.amount.asMoney = some sum ∧
    after.view? order.target = some { target with balance := sum }
  others : ∀ id, id ≠ order.source → id ≠ order.target → after.view? id = s.view? id
  orders : after.orders = s.orders ++ [{ order with amount := order.amount.asMoney }]
  amount : order.amount.asMoney.value = order.amount.value
  access : after.access = s.access
  active : after.aborted = s.aborted
  ledger : after.ledger = s.ledger

namespace Scope

variable {s : Scope} {order : TransferOrder} {source target : Account} {p : Posting}

/-! ## Rules -/

/-- Whether a balance can hold a sum does not depend on the places of the amount. -/
theorem exists_add?_asMoney_iff {balance amount : Decimal} :
    (∃ sum, balance.add? amount.asMoney = some sum) ↔ ∃ sum, balance.add? amount = some sum := by
  rw [← Option.ne_none_iff_exists', ← Option.ne_none_iff_exists', not_iff_not]
  exact Decimal.add?_eq_none_congr (Decimal.value_asMoney amount)

theorem Takes.allowed (h : s.Takes order source target p) : order.Allowed s source target where
  writes := h.writes
  shows_source := h.view_source
  shows_target := h.view_target
  distinct := h.order_distinct
  positive := Decimal.positive_iff_value_pos.1 h.settled.positive
  cents := Decimal.not_exceedsMoney_iff.1 h.settled.money
  currency := h.settled.currency
  covered := not_lt.1 (mt Decimal.lt_asMoney_iff.2 h.settled.funds)
  fits := exists_add?_asMoney_iff.1 ⟨p.targetBalance, h.settled.credit⟩

/-- An order that the rules allow comes to something: the difference is between zero and the
balance, so that it always has a result. -/
theorem exists_takes (h : order.Allowed s source target) : ∃ p, s.Takes order source target p := by
  obtain ⟨difference, hdebit⟩ := Decimal.exists_sub?_asMoney h.positive.le h.covered
  obtain ⟨sum, hcredit⟩ := exists_add?_asMoney_iff.2 h.fits
  have hdistinct : source.id ≠ target.id := by
    rw [(view?_eq_some_iff.1 h.shows_source).2, (view?_eq_some_iff.1 h.shows_target).2]
    exact h.distinct
  refine ⟨⟨order.amount.asMoney, difference, sum⟩, h.writes, h.shows_source, h.shows_target, ?_⟩
  exact {
    positive := Decimal.positive_iff_value_pos.2 h.positive
    money := Decimal.not_exceedsMoney_iff.2 h.cents
    distinct := hdistinct
    currency := h.currency
    funds := mt Decimal.lt_asMoney_iff.1 (not_lt.2 h.covered)
    booked := rfl
    debit := hdebit
    credit := hcredit }

theorem exists_takes_iff :
    (∃ p, s.Takes order source target p) ↔ order.Allowed s source target := by
  constructor
  · rintro ⟨p, h⟩
    exact h.allowed
  · exact exists_takes

theorem Takes.hasTaken (h : s.Takes order source target p) :
    s.HasTaken order source target (s.staging order p) where
  source := by
    refine ⟨p.sourceBalance, h.settled.debit, ?_⟩
    rw [view?_staging, h.view_source, Option.map_some, h.update_source]
  target := by
    refine ⟨p.targetBalance, h.settled.credit, ?_⟩
    rw [view?_staging, h.view_target, Option.map_some, h.update_target]
  others id hsource htarget := view?_staging_of_ne hsource htarget
  orders := by
    rw [← h.settled.booked]
    rfl
  amount := Decimal.value_asMoney order.amount
  access := rfl
  active := rfl
  ledger := rfl

/-- In whatever state a scope is:

* it makes a transfer if and only if it is not aborted and the rules allow the order between the two
  accounts that it shows;
* then it shows the difference at the source and the sum at the target, every other account as
  before, and one more staged order;
* otherwise it is aborted, and nothing else about it changes. -/
theorem transfer_made_iff_allowed (s : Scope) (order : TransferOrder) :
    ((s.run (.transfer order)).1 = .ok () ↔
      s.aborted = false ∧ ∃ source target, order.Allowed s source target) ∧
    (∀ after, s.run (.transfer order) = (.ok (), after) →
      ∃ source target, order.Allowed s source target ∧ s.HasTaken order source target after) ∧
    ∀ fault after, s.run (.transfer order) = (.error fault, after) →
      after = { s with aborted := true } := by
  refine ⟨⟨?_, ?_⟩, ?_, ?_⟩
  · intro hok
    obtain ⟨source, target, p, ht, -⟩ := run_transfer_eq_ok (Prod.ext hok rfl)
    refine ⟨?_, source, target, exists_takes_iff.1 ⟨p, ht⟩⟩
    rcases habort : s.aborted with _ | _
    · rfl
    · simp [run, habort] at hok
  · rintro ⟨hactive, source, target, hallowed⟩
    obtain ⟨p, ht⟩ := exists_takes_iff.2 hallowed
    rw [run_transfer_of_ok hactive (stage_eq_ok_iff.2 ⟨source, target, p, ht, rfl⟩)]
  · intro after h
    obtain ⟨source, target, p, ht, rfl⟩ := run_transfer_eq_ok h
    exact ⟨source, target, ht.allowed, ht.hasTaken⟩
  · intro fault after h
    rcases habort : s.aborted with _ | _
    · rcases hstage : s.stage order with found | staged
      · rw [run_transfer_of_error habort hstage] at h
        exact (Prod.mk.inj h).2.symm
      · rw [run_transfer_of_ok habort hstage] at h
        simp at h
    · -- an aborted scope stays as it is
      have hsame := (run_of_aborted habort (.transfer order)).1
      rw [h] at hsame
      rw [← habort]
      exact hsame

/-- A ledger of three accounts, one of them empty and one of another currency. -/
def abroad : Ledger where
  accounts := [
    { id := 1, balance := Decimal.ofParts 10000 2, currency := "USD" },
    { id := 2, balance := Decimal.ofParts 0 2, currency := "USD" },
    { id := 3, balance := Decimal.ofParts 777 2, currency := "EUR" }]
  ascending := by decide

/-- A scope in which sixty were lent to the empty account. -/
def lent : Scope :=
  ((begin abroad .readWrite).run (.transfer ⟨1, 2, Decimal.ofParts 60 0, "loan"⟩)).2

/-- Twelve and a half come back. -/
def firstRate : TransferOrder :=
  ⟨2, 1, Decimal.ofParts 125 1, "first rate"⟩

/-- The account that had nothing pays from what is staged for it. What goes to another currency
after that is not made. -/
theorem firstRate_made :
    (∃ source target, firstRate.Allowed lent source target ∧
      source.balance = Decimal.ofParts 6000 2) ∧
    (∃ after, lent.run (.transfer firstRate) = (.ok (), after) ∧
      (∃ source target, lent.HasTaken firstRate source target after) ∧
      (after.view? 2).map Account.balance = some (Decimal.ofParts 4750 2) ∧
      (after.view? 1).map Account.balance = some (Decimal.ofParts 5250 2) ∧
      after.view? 3 = abroad.find? 3 ∧
      after.orders = [⟨1, 2, Decimal.ofParts 6000 2, "loan"⟩,
        ⟨2, 1, Decimal.ofParts 1250 2, "first rate"⟩]) ∧
    (lent.run (.transfer { firstRate with target := 3 })).2 = { lent with aborted := true } := by
  have hok : (lent.run (.transfer firstRate)).1 = .ok () := by decide +kernel
  obtain ⟨hiff, hmade, -⟩ := transfer_made_iff_allowed lent firstRate
  obtain ⟨-, source, target, hallowed⟩ := hiff.1 hok
  obtain ⟨source', target', -, htaken⟩ := hmade _ (Prod.ext hok rfl)
  refine ⟨⟨source, target, hallowed, ?_⟩, ⟨_, Prod.ext hok rfl, ⟨source', target', htaken⟩, ?_⟩, ?_⟩
  · have hview : (lent.view? 2).map Account.balance = some (Decimal.ofParts 6000 2) := by
      decide +kernel
    have hsource : lent.view? 2 = some source := hallowed.shows_source
    rw [hsource] at hview
    exact Option.some.inj hview
  · decide +kernel
  · have hrefused : (lent.run (.transfer { firstRate with target := 3 })).1 =
        .error (.currencyMismatch 2 "USD" 3 "EUR") := by
      decide +kernel
    exact (transfer_made_iff_allowed lent { firstRate with target := 3 }).2.2 _ _
      (Prod.ext hrefused rfl)

end Scope

end TransferDesk
