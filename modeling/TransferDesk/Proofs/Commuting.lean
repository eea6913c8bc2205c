import Mathlib.Algebra.BigOperators.Group.List.Basic
import TransferDesk.Proofs.Ledger.Attained
import TransferDesk.Proofs.Ledger.Payment
/-!
# Transfers that commute

Transfers are made one after the other, and the balances in between depend on their order. Where
each account can afford all that is taken from it out of what it has to begin with
(`Ledger.Affords`), the order does not matter in the end: every transfer is made, and every balance
ends where its debits and credits take it.

To afford orders is the invariant. Once the first of them is made, the ledger affords the others
(`Ledger.Affords.pay`). What the orders together do to one balance, `Account.Reaches`, names their
sums only and leaves one balance open, with its scale; so it is the same balance in whatever order
they come (`affordable_transfers_commute`).
-/

namespace TransferDesk

/-! ## Debits and credits -/

/-- What an order takes from an account, in cents. -/
def TransferOrder.debit (order : TransferOrder) (id : AccountId) : ℚ :=
  if order.source = id then order.amount.cents else 0

/-- What an order brings to an account, in cents. -/
def TransferOrder.credit (order : TransferOrder) (id : AccountId) : ℚ :=
  if order.target = id then order.amount.cents else 0

/-- What orders take from an account together, in cents. -/
def debits (id : AccountId) (orders : List TransferOrder) : ℚ :=
  (orders.map (·.debit id)).sum

/-- What orders bring to an account together, in cents. -/
def credits (id : AccountId) (orders : List TransferOrder) : ℚ :=
  (orders.map (·.credit id)).sum

/-- Whether an order is from or to an account. -/
def TransferOrder.Names (order : TransferOrder) (id : AccountId) : Prop :=
  id = order.source ∨ id = order.target

instance (order : TransferOrder) (id : AccountId) : Decidable (order.Names id) :=
  inferInstanceAs (Decidable (id = order.source ∨ id = order.target))

section Sums

variable (id : AccountId)

theorem debits_cons (order : TransferOrder) (orders : List TransferOrder) :
    debits id (order :: orders) = order.debit id + debits id orders :=
  List.sum_cons

theorem credits_cons (order : TransferOrder) (orders : List TransferOrder) :
    credits id (order :: orders) = order.credit id + credits id orders :=
  List.sum_cons

theorem debits_perm {orders reordered : List TransferOrder} (h : reordered.Perm orders) :
    debits id reordered = debits id orders :=
  (h.map _).sum_eq

theorem credits_perm {orders reordered : List TransferOrder} (h : reordered.Perm orders) :
    credits id reordered = credits id orders :=
  (h.map _).sum_eq

variable {accounts : List Account}

theorem TransferOrder.Booked.cents_nonneg {order : TransferOrder} (h : order.Booked accounts) :
    0 ≤ order.amount.cents := by
  obtain ⟨n, -, hn⟩ := h.cents
  rw [Decimal.cents, hn]
  positivity

theorem TransferOrder.Booked.debit_nonneg {order : TransferOrder} (h : order.Booked accounts) :
    0 ≤ order.debit id := by
  unfold debit
  split
  · exact h.cents_nonneg
  · exact le_refl 0

theorem TransferOrder.Booked.credit_nonneg {order : TransferOrder} (h : order.Booked accounts) :
    0 ≤ order.credit id := by
  unfold credit
  split
  · exact h.cents_nonneg
  · exact le_refl 0

theorem debits_nonneg {orders : List TransferOrder}
    (h : ∀ order ∈ orders, order.Booked accounts) : 0 ≤ debits id orders := by
  refine List.sum_nonneg ?_
  intro q hq
  obtain ⟨order, horder, rfl⟩ := List.mem_map.1 hq
  exact (h order horder).debit_nonneg id

theorem credits_nonneg {orders : List TransferOrder}
    (h : ∀ order ∈ orders, order.Booked accounts) : 0 ≤ credits id orders := by
  refine List.sum_nonneg ?_
  intro q hq
  obtain ⟨order, horder, rfl⟩ := List.mem_map.1 hq
  exact (h order horder).credit_nonneg id

end Sums

/-! ## The balance that orders lead to -/

/-- The balance of an account after orders that are all made: it is less by its debits and more by
its credits, with two places, and it is what it was if no order names the account. -/
structure Account.Reaches (a : Account) (orders : List TransferOrder) (balance : Decimal) :
    Prop where
  cents : balance.cents = a.balance.cents - debits a.id orders + credits a.id orders
  places : (∃ order ∈ orders, order.Names a.id) → balance.InCents
  same : (¬ ∃ order ∈ orders, order.Names a.id) → balance = a.balance

namespace Account.Reaches

variable {a : Account} {order : TransferOrder} {orders reordered : List TransferOrder}
  {balance last : Decimal}

theorem nil (a : Account) : a.Reaches [] a.balance := by
  refine ⟨?_, ?_, fun _ => rfl⟩
  · show a.balance.cents = a.balance.cents - 0 + 0
    ring
  · rintro ⟨order, horder, -⟩
    cases horder

/-- One order leads to a balance, and the others lead on from there. -/
theorem cons (hfirst : a.Reaches [order] balance)
    (hrest : { a with balance := balance }.Reaches orders last) :
    a.Reaches (order :: orders) last := by
  constructor
  · have hone := hfirst.cents
    have hothers := hrest.cents
    rw [debits_cons, credits_cons] at hone ⊢
    change _ = _ - (_ + 0) + (_ + 0) at hone
    change _ = balance.cents - debits a.id orders + credits a.id orders at hothers
    rw [hothers, hone]
    ring
  · rintro ⟨named, hmem, hname⟩
    by_cases hlater : ∃ order ∈ orders, order.Names a.id
    · exact hrest.places hlater
    · -- only the first order names the account, and the balance stays with two places
      rw [hrest.same hlater]
      rcases List.mem_cons.1 hmem with rfl | hmem
      · exact hfirst.places ⟨named, List.mem_singleton_self _, hname⟩
      · exact absurd ⟨named, hmem, hname⟩ hlater
  · intro hnone
    have hlater : ¬ ∃ order ∈ orders, order.Names a.id := by
      rintro ⟨named, hmem, hname⟩
      exact hnone ⟨named, List.mem_cons_of_mem order hmem, hname⟩
    rw [hrest.same hlater]
    apply hfirst.same
    rintro ⟨named, hmem, hname⟩
    obtain rfl := List.mem_singleton.1 hmem
    exact hnone ⟨named, List.mem_cons_self, hname⟩

theorem perm (h : a.Reaches orders balance) (hperm : reordered.Perm orders) :
    a.Reaches reordered balance := by
  refine ⟨?_, ?_, ?_⟩
  · rw [debits_perm a.id hperm, credits_perm a.id hperm]
    exact h.cents
  · simp only [hperm.mem_iff]
    exact h.places
  · simp only [hperm.mem_iff]
    exact h.same

/-- Orders lead to one balance only. -/
theorem unique (h : a.Reaches orders balance) (h' : a.Reaches orders last) : balance = last := by
  by_cases hnamed : ∃ order ∈ orders, order.Names a.id
  · -- both have two places, so they are equal if they come to the same
    exact (h.places hnamed).eq_of_cents (h'.places hnamed) (h.cents.trans h'.cents.symm)
  · rw [h.same hnamed, h'.same hnamed]

end Account.Reaches

/-! ## One payment -/

section Payment

variable {l : Ledger} {order : TransferOrder} {source target : Account} {n : ℕ} {p : Posting}

/-- A payment leads every balance where it should. -/
theorem Posting.Pays.reaches (hpays : p.Pays source target n)
    (hbetween : order.Between l source target n) {a : Account} (ha : a ∈ l.accounts) :
    a.Reaches [order] (p.update order a).balance := by
  have hfound : l.find? a.id = some a := Ledger.find?_eq_some_iff.2 ⟨ha, rfl⟩
  have hcents := hbetween.cents
  have hdistinct := hbetween.distinct
  have hone (id : AccountId) : (∃ o ∈ [order], o.Names id) ↔ order.Names id := by simp
  unfold Posting.update
  constructor
  · rw [debits_cons, credits_cons]
    change _ = _ - (order.debit a.id + 0) + (order.credit a.id + 0)
    unfold TransferOrder.debit TransferOrder.credit
    by_cases htarget : a.id = order.target
    · -- the target, which is not the source as well
      have hsource : ¬ order.source = a.id := fun h => hdistinct (h.trans htarget)
      obtain rfl : a = target := by
        rw [htarget, hbetween.findTarget] at hfound
        exact (Option.some.inj hfound).symm
      simp only [if_pos htarget, if_neg hsource, if_pos htarget.symm, hpays.credit, hcents]
      ring
    · by_cases hsource : a.id = order.source
      · obtain rfl : a = source := by
          rw [hsource, hbetween.findSource] at hfound
          exact (Option.some.inj hfound).symm
        simp only [if_neg htarget, if_pos hsource, if_pos hsource.symm, if_neg (Ne.symm htarget),
          hpays.debit, hcents]
        ring
      · -- an account that the order does not name
        simp only [if_neg htarget, if_neg hsource, if_neg (Ne.symm htarget),
          if_neg (Ne.symm hsource)]
        ring
  · rw [hone]
    rintro (hsource | htarget)
    · rw [if_neg (by rw [hsource]; exact hdistinct), if_pos hsource]
      exact hpays.sourcePlaces
    · rw [if_pos htarget]
      exact hpays.targetPlaces
  · rw [hone]
    intro hnone
    rw [TransferOrder.Names, not_or] at hnone
    rw [if_neg hnone.2, if_neg hnone.1]

end Payment

/-! ## Orders that a ledger can afford -/

namespace Ledger

/-- Makes transfers one after the other. -/
def transferAll (l : Ledger) : List TransferOrder → List (Except Fault Unit) × Ledger
  | [] => ([], l)
  | order :: orders =>
    let (result, l) := l.transfer order
    let (results, last) := l.transferAll orders
    (result :: results, last)

/-- Orders of whole cents, each between two accounts of the ledger that have one currency. What is
taken from an account is covered by what it has now, and its balance fits in 96 bits, counted in
cents, as it is now and with all that is brought to it. -/
structure Affords (l : Ledger) (orders : List TransferOrder) : Prop where
  booked : ∀ order ∈ orders, order.Booked l.accounts
  covered : ∀ a ∈ l.accounts, (∃ order ∈ orders, order.source = a.id) →
    debits a.id orders ≤ a.balance.cents
  fits : ∀ a ∈ l.accounts, |a.balance.cents| < 2 ^ 96
  fitsCredited : ∀ a ∈ l.accounts, |a.balance.cents + credits a.id orders| < 2 ^ 96

namespace Affords

variable {l : Ledger} {order : TransferOrder} {orders reordered : List TransferOrder}

theorem perm (h : l.Affords orders) (hperm : reordered.Perm orders) : l.Affords reordered := by
  refine ⟨?_, ?_, h.fits, ?_⟩
  · intro order horder
    exact h.booked order (hperm.mem_iff.1 horder)
  · simp only [hperm.mem_iff, debits_perm _ hperm]
    exact h.covered
  · simp only [credits_perm _ hperm]
    exact h.fitsCredited

theorem booked_tail (h : l.Affords (order :: orders)) : ∀ o ∈ orders, o.Booked l.accounts := by
  intro o ho
  exact h.booked o (List.mem_cons_of_mem order ho)

/-- Whatever the first order takes from an account leaves its balance within bounds. -/
theorem lower_bound (h : l.Affords (order :: orders)) {a : Account} (ha : a ∈ l.accounts) :
    -2 ^ 96 < a.balance.cents - order.debit a.id := by
  by_cases hsource : order.source = a.id
  · have hcovered := h.covered a ha ⟨order, List.mem_cons_self, hsource⟩
    have hrest := debits_nonneg a.id h.booked_tail
    rw [debits_cons] at hcovered
    linarith
  · have hfits := (abs_lt.1 (h.fits a ha)).1
    unfold TransferOrder.debit
    rw [if_neg hsource]
    linarith

/-- The first order is made and leads every balance where it should. -/
theorem pay (h : l.Affords (order :: orders)) (hplaces : TwoPlaces l.accounts) :
    ∃ (after : Ledger) (balance : Account → Decimal), l.transfer order = (.ok (), after) ∧
      after.accounts = l.accounts.map (fun a => { a with balance := balance a }) ∧
      (∀ a ∈ l.accounts, a.Reaches [order] (balance a)) ∧
      after.history = l.history ++ [{ order with amount := order.amount.asMoney }] ∧
      TwoPlaces after.accounts := by
  obtain ⟨source, target, n, hbetween⟩ := (h.booked order List.mem_cons_self).between
  obtain ⟨hsource, hsourceId⟩ := find?_eq_some_iff.1 hbetween.findSource
  obtain ⟨htarget, htargetId⟩ := find?_eq_some_iff.1 hbetween.findTarget
  have hpos : (0 : ℚ) < n := by exact_mod_cast hbetween.pos
  -- what covers all debits covers the first, and what is within bounds with all credits is so with
  -- the first
  have hcovered : n ≤ source.balance.cents := by
    have hall := h.covered source hsource ⟨order, List.mem_cons_self, hsourceId.symm⟩
    have hrest := debits_nonneg source.id h.booked_tail
    rw [debits_cons, TransferOrder.debit, if_pos hsourceId.symm, hbetween.cents] at hall
    linarith
  have hcredited : |target.balance.cents + n| < 2 ^ 96 := by
    have hnow := abs_lt.1 (h.fits target htarget)
    have hall := abs_lt.1 (h.fitsCredited target htarget)
    have hrest := credits_nonneg target.id h.booked_tail
    rw [credits_cons, TransferOrder.credit, if_pos htargetId.symm, hbetween.cents] at hall
    rw [abs_lt]
    constructor <;> linarith
  obtain ⟨p, after, htransfer, hmade, hpays⟩ :=
    hbetween.transfer_covered hplaces hcovered (h.fits source hsource) hcredited
  obtain ⟨balance, hupdate, -⟩ := p.exists_balance order
  refine ⟨after, balance, htransfer, ?_, ?_, ?_, keptByTransfers_twoPlaces.made hmade hplaces⟩
  · rw [hmade.accounts]
    exact List.map_congr_left fun a _ => hupdate a
  · intro a ha
    have hreaches := hpays.reaches hbetween ha
    rwa [hupdate] at hreaches
  · have hbook : p.order order = { order with amount := order.amount.asMoney } := by
      unfold Posting.order
      rw [hmade.takes.settled.booked]
    rw [hmade.history, hbook]

/-- Once the first order is made, what there is then affords the others. -/
theorem rest (h : l.Affords (order :: orders)) {after : Ledger} {balance : Account → Decimal}
    (haccounts : after.accounts = l.accounts.map (fun a => { a with balance := balance a }))
    (hreaches : ∀ a ∈ l.accounts, a.Reaches [order] (balance a)) : after.Affords orders := by
  have hfirst := h.booked order List.mem_cons_self
  have hcents : ∀ a ∈ l.accounts, (balance a).cents =
      a.balance.cents - order.debit a.id + order.credit a.id := by
    intro a ha
    rw [(hreaches a ha).cents, debits_cons, credits_cons]
    change _ - (_ + 0) + (_ + 0) = _
    ring
  have hbounds : ∀ a ∈ l.accounts, |(balance a).cents| < 2 ^ 96 ∧
      |(balance a).cents + credits a.id orders| < 2 ^ 96 := by
    intro a ha
    have hlower := h.lower_bound ha
    have hall := (abs_lt.1 (h.fitsCredited a ha)).2
    have hdebit := hfirst.debit_nonneg a.id
    have hcredit := hfirst.credit_nonneg a.id
    have hrest := credits_nonneg a.id h.booked_tail
    rw [credits_cons] at hall
    rw [hcents a ha, abs_lt, abs_lt]
    refine ⟨⟨?_, ?_⟩, ?_, ?_⟩ <;> linarith
  constructor <;> rw [haccounts]
  · intro o ho
    exact (h.booked_tail o ho).map balance
  · -- what the first order takes is no longer there, and no longer to be taken
    rw [List.forall_mem_map]
    rintro a ha ⟨o, ho, hdebited⟩
    have hall := h.covered a ha ⟨o, List.mem_cons_of_mem order ho, hdebited⟩
    have hcredit := hfirst.credit_nonneg a.id
    rw [debits_cons] at hall
    rw [hcents a ha]
    linarith
  · rw [List.forall_mem_map]
    intro a ha
    exact (hbounds a ha).1
  · rw [List.forall_mem_map]
    intro a ha
    exact (hbounds a ha).2

/-- All the orders are made, and lead every balance where they should. -/
theorem payAll (h : l.Affords orders) (hplaces : TwoPlaces l.accounts) :
    (l.transferAll orders).1 = List.replicate orders.length (.ok ()) ∧
    (l.transferAll orders).2.history =
      l.history ++ orders.map (fun order => { order with amount := order.amount.asMoney }) ∧
    ∃ balance : Account → Decimal,
      (l.transferAll orders).2.accounts =
        l.accounts.map (fun a => { a with balance := balance a }) ∧
      ∀ a ∈ l.accounts, a.Reaches orders (balance a) := by
  induction orders generalizing l with
  | nil =>
    refine ⟨rfl, (List.append_nil _).symm, Account.balance, (List.map_id _).symm, ?_⟩
    intro a _
    exact .nil a
  | cons order orders ih =>
    obtain ⟨after, first, htransfer, haccounts, hfirst, hhistory, hafter⟩ := h.pay hplaces
    obtain ⟨hresults, hlater, last, hlast, hrest⟩ := ih (h.rest haccounts hfirst) hafter
    -- the others are made on what the first one leaves, and lead on from the balances there
    have hcons : l.transferAll (order :: orders) =
        (.ok () :: (after.transferAll orders).1, (after.transferAll orders).2) := by
      simp only [transferAll, htransfer]
    rw [hcons]
    refine ⟨?_, ?_, fun a => last { a with balance := first a }, ?_, ?_⟩
    · rw [hresults]
      rfl
    · rw [hlater, hhistory, List.append_assoc]
      rfl
    · rw [hlast, haccounts, List.map_map]
      rfl
    · intro a ha
      apply (hfirst a ha).cons
      exact hrest _ (by rw [haccounts]; exact List.mem_map_of_mem ha)

end Affords

/-- Transfers one after the other are dealings with the ledger. -/
theorem Attained.transferAll {l : Ledger} (h : l.Attained) (orders : List TransferOrder) :
    (l.transferAll orders).2.Attained := by
  induction orders generalizing l with
  | nil => exact h
  | cons order orders ih => exact ih (h.deal (.request (.ok (.transfer order))))

/-- Affordable transfers commute. Take a ledger and orders of whole cents, each between two
different accounts with one currency, such that what is taken from an account together is covered by
what it has to begin with, and such that every balance fits in 96 bits, counted in cents, as it is
and with all that is brought to it.

In whatever order the transfers are made, one after the other:

* all of them are made;
* the accounts are the same in the end, with all balances and the scales of these, and each balance
is less by what was taken and more by what was brought;
* the journal has the same transfers, which may stand in another order, and it is numbered from one
without a gap. -/
theorem affordable_transfers_commute {l : Ledger} (hl : l.Attained)
    {orders reordered : List TransferOrder} (h : l.Affords orders) (hperm : reordered.Perm orders) :
    (l.transferAll reordered).1 = List.replicate orders.length (.ok ()) ∧
    (l.transferAll reordered).2.accounts = (l.transferAll orders).2.accounts ∧
    (∀ a ∈ l.accounts, ∃ balance,
      (l.transferAll reordered).2.find? a.id = some { a with balance := balance } ∧
      balance.cents = a.balance.cents - debits a.id orders + credits a.id orders) ∧
    (l.transferAll reordered).2.history.Perm (l.transferAll orders).2.history ∧
    (l.transferAll reordered).2.journal.map JournalEntry.number =
      List.range' 1 (l.journal.length + orders.length) := by
  obtain ⟨-, hhistory, balance, haccounts, hreaches⟩ := h.payAll hl.twoPlaces
  obtain ⟨hresults', hhistory', balance', haccounts', hreaches'⟩ :=
    (h.perm hperm).payAll hl.twoPlaces
  -- the sums are the same in both orders, and they leave one balance open
  have hsame : ∀ a ∈ l.accounts, balance' a = balance a := by
    intro a ha
    exact (hreaches' a ha).unique ((hreaches a ha).perm hperm)
  refine ⟨?_, ?_, ?_, ?_, ?_⟩
  · rw [hresults', hperm.length_eq]
  · rw [haccounts', haccounts]
    refine List.map_congr_left ?_
    intro a ha
    rw [hsame a ha]
  · intro a ha
    refine ⟨balance' a, ?_, ?_⟩
    · rw [find?_eq_some_iff, haccounts']
      exact ⟨List.mem_map_of_mem ha, rfl⟩
    · rw [hsame a ha]
      exact (hreaches a ha).cents
  · rw [hhistory', hhistory]
    exact (hperm.map _).append_left l.history
  · have hnumbered := (hl.transferAll reordered).numbered
    have hlength : (l.transferAll reordered).2.history.length =
        l.journal.length + orders.length := by
      rw [hhistory', List.length_append, List.length_map, hperm.length_eq, l.length_history]
    rw [hnumbered.journal, map_number_entries, hlength]

/-- A ledger with two accounts in credit and one in debt. -/
def creditAndOldDebt : Ledger where
  accounts := [
    { id := 1, balance := Decimal.ofParts 1000 2, currency := "USD" },
    { id := 2, balance := Decimal.ofParts 300 2, currency := "USD" },
    { id := 3, balance := Decimal.ofParts (-550) 2, currency := "USD" }]
  ascending := by decide

/-- Orders that take all there is from the accounts in credit, and bring something to all
accounts. -/
def roundTrip : List TransferOrder :=
  [⟨1, 2, Decimal.ofParts 6 0, "lend"⟩, ⟨2, 1, Decimal.ofParts 30 1, "return"⟩,
    ⟨1, 3, Decimal.ofParts 4000 3, "debt"⟩]

theorem creditAndOldDebt_affords : creditAndOldDebt.Affords roundTrip := by
  have hcents {c : ℤ} {scale : ℕ} (hc : |c| < 2 ^ 96) (hs : scale ≤ 28) :
      (Decimal.ofParts c scale).cents = 100 * (c / 10 ^ scale) := by
    rw [Decimal.cents, Decimal.value_ofParts hc hs]
  have hlend : (Decimal.ofParts 6 0).cents = 600 := by rw [hcents] <;> norm_num
  have hreturn : (Decimal.ofParts 30 1).cents = 300 := by rw [hcents] <;> norm_num
  have hdebt : (Decimal.ofParts 4000 3).cents = 400 := by rw [hcents] <;> norm_num
  have hfirst : (Decimal.ofParts 1000 2).cents = 1000 := by rw [hcents] <;> norm_num
  have hsecond : (Decimal.ofParts 300 2).cents = 300 := by rw [hcents] <;> norm_num
  have hthird : (Decimal.ofParts (-550) 2).cents = -550 := by rw [hcents] <;> norm_num
  constructor
  · intro order horder
    simp only [roundTrip, List.mem_cons, List.not_mem_nil, or_false] at horder
    rcases horder with rfl | rfl | rfl
    · exact ⟨by decide, by decide, 600, by norm_num,
        by rw [Decimal.cents] at hlend; norm_num; linarith⟩
    · exact ⟨by decide, by decide, 300, by norm_num,
        by rw [Decimal.cents] at hreturn; norm_num; linarith⟩
    · exact ⟨by decide, by decide, 400, by norm_num,
        by rw [Decimal.cents] at hdebt; norm_num; linarith⟩
  · intro a ha hdebited
    simp only [creditAndOldDebt, List.mem_cons, List.not_mem_nil, or_false] at ha
    rcases ha with rfl | rfl | rfl
    · norm_num +decide [debits, roundTrip, TransferOrder.debit, hlend, hdebt, hfirst]
    · norm_num +decide [debits, roundTrip, TransferOrder.debit, hreturn, hsecond]
    · exact absurd hdebited (by decide)
  · intro a ha
    simp only [creditAndOldDebt, List.mem_cons, List.not_mem_nil, or_false] at ha
    rcases ha with rfl | rfl | rfl
    · norm_num [hfirst]
    · norm_num [hsecond]
    · norm_num [hthird]
  · intro a ha
    simp only [creditAndOldDebt, List.mem_cons, List.not_mem_nil, or_false] at ha
    rcases ha with rfl | rfl | rfl
    · norm_num +decide [credits, roundTrip, TransferOrder.credit, hreturn, hfirst]
    · norm_num +decide [credits, roundTrip, TransferOrder.credit, hlend, hsecond]
    · norm_num +decide [credits, roundTrip, TransferOrder.credit, hdebt, hthird]

theorem roundTrip_commutes :
    creditAndOldDebt.Attained ∧ creditAndOldDebt.Affords roundTrip ∧
    (creditAndOldDebt.transferAll roundTrip.reverse).1 = [.ok (), .ok (), .ok ()] ∧
    (creditAndOldDebt.transferAll roundTrip.reverse).2.accounts =
      (creditAndOldDebt.transferAll roundTrip).2.accounts ∧
    (creditAndOldDebt.transferAll roundTrip).2.accounts.map Account.balance =
      [Decimal.ofParts 300 2, Decimal.ofParts 600 2, Decimal.ofParts (-150) 2] ∧
    (creditAndOldDebt.transferAll roundTrip.reverse).2.history.Perm
      (creditAndOldDebt.transferAll roundTrip).2.history ∧
    (creditAndOldDebt.transferAll roundTrip.reverse).2.journal.map JournalEntry.number =
      [1, 2, 3] := by
  have hstart : ofAccounts creditAndOldDebt.accounts = .ok creditAndOldDebt := by decide
  have hl : creditAndOldDebt.Attained := .of_ofAccounts hstart
  have hbalances : (creditAndOldDebt.transferAll roundTrip).2.accounts.map Account.balance =
      [Decimal.ofParts 300 2, Decimal.ofParts 600 2, Decimal.ofParts (-150) 2] := by
    decide +kernel
  obtain ⟨hresults, haccounts, -, hhistory, hnumbers⟩ :=
    affordable_transfers_commute hl creditAndOldDebt_affords roundTrip.reverse_perm
  exact ⟨hl, creditAndOldDebt_affords, hresults, haccounts, hbalances, hhistory, hnumbers⟩

end Ledger

end TransferDesk
