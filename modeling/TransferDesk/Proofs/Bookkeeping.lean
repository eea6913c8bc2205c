import Mathlib.Data.List.Basic
import TransferDesk.Proofs.Desk.Effects
import TransferDesk.Proofs.Exactness
import TransferDesk.Proofs.Ledger.Building
/-!
# The books

A ledger keeps two books, the journal and the table of accounts, and neither is ever written over.
Entries are only added to the journal and are numbered from one without a gap (`Ledger.Numbered`);
each of them is a transfer of whole cents between two accounts of the table with one currency
(`TransferOrder.Booked`). Of the table only balances change, and none without an entry that names
its account (`Rebalanced`).

The rules of a transfer are checked when it is staged, against the accounts as the scope shows them,
and the number is given when the scope is committed. So the two are separate invariants: what is
booked is kept by every transfer that a scope takes (`keptByTransfers_booked`,
`keptByTransfers_rebalanced`), and the numbers by every dealing (`Ledger.Numbered.deal`).
`books_sound` puts them together.
-/

namespace TransferDesk

open Scope (KeptByTransfers)

/-! ## Numbers -/

namespace Ledger

/-- The journal is the history, numbered from one, and the next number is the one behind it. -/
structure Numbered (l : Ledger) : Prop where
  journal : l.journal = entries 1 l.history
  nextNumber : l.nextNumber = 1 + l.history.length

theorem map_number_entries (first : ℕ) (orders : List TransferOrder) :
    (entries first orders).map JournalEntry.number = List.range' first orders.length := by
  induction orders generalizing first with
  | nil => rfl
  | cons order orders ih => rw [entries, List.map_cons, ih, List.length_cons, List.range'_succ]

theorem length_history (l : Ledger) : l.history.length = l.journal.length :=
  List.length_map _

/-- The numbers go on where further transfers are posted. -/
theorem Numbered.extend {l after : Ledger} (h : l.Numbered) {orders : List TransferOrder}
    (hjournal : after.journal = l.journal ++ entries l.nextNumber orders)
    (hnext : after.nextNumber = l.nextNumber + orders.length) : after.Numbered := by
  have hhistory : after.history = l.history ++ orders := by
    unfold history
    rw [hjournal, List.map_append, map_order_entries]
  constructor
  · rw [hhistory, entries_append, ← h.nextNumber, hjournal, ← h.journal]
  · rw [hhistory, List.length_append, hnext, h.nextNumber, Nat.add_assoc]

theorem Numbered.deal {l : Ledger} (h : l.Numbered) (dealing : Dealing) :
    (l.deal dealing).Numbered := by
  cases dealing with
  | visit v =>
    -- what the statements have staged is posted in one go, or not at all
    have hledger : (l.openScope v).ledger = l := Scope.ledger_observe _ _
    rcases (l.openScope v).close_eq v.closing with hsame | hposted
    · show ((l.openScope v).close v.closing).2.Numbered
      rw [hsame, hledger]
      exact h
    · show ((l.openScope v).close v.closing).2.Numbered
      rw [hposted, hledger]
      exact h.extend rfl rfl
  | request request =>
    rcases Desk.answer_cases request l with ⟨-, hsame⟩ | ⟨order, source, target, p, -, -, hmade⟩
    · show (Desk.answer request l).2.Numbered
      rw [hsame]
      exact h
    · -- one order is posted, as it is booked
      have hjournal : (l.deal (.request request)).journal =
          l.journal ++ entries l.nextNumber [p.order order] := hmade.journal
      exact h.extend hjournal hmade.nextNumber

theorem Numbered.dealAll {l : Ledger} (h : l.Numbered) (dealings : List Dealing) :
    (l.dealAll dealings).Numbered := by
  induction dealings generalizing l with
  | nil => exact h
  | cons dealing dealings ih => exact ih (h.deal dealing)

theorem history_of_ofAccounts {accounts : List Account} {start : Ledger}
    (hstart : ofAccounts accounts = .ok start) : start.history = [] := by
  rw [history, (ofAccounts_eq_ok hstart).2.1, List.map_nil]

theorem Numbered.of_ofAccounts {accounts : List Account} {start : Ledger}
    (hstart : ofAccounts accounts = .ok start) : start.Numbered := by
  obtain ⟨-, hjournal, hnext⟩ := ofAccounts_eq_ok hstart
  constructor
  · rw [history_of_ofAccounts hstart, hjournal]
    rfl
  · rw [history_of_ofAccounts hstart, hnext]
    rfl

end Ledger

/-! ## Transfers that are booked -/

/-- A transfer of whole cents above zero between two of the accounts, which have one currency. -/
structure TransferOrder.Booked (accounts : List Account) (order : TransferOrder) : Prop where
  distinct : order.source ≠ order.target
  parties : ∃ source ∈ accounts, ∃ target ∈ accounts, source.id = order.source ∧
    target.id = order.target ∧ source.currency = target.currency
  cents : ∃ n : ℕ, 0 < n ∧ order.amount.value = n / 100

/-- An order stays booked if only balances change. -/
theorem TransferOrder.Booked.map {accounts : List Account} {order : TransferOrder}
    (h : order.Booked accounts) (balance : Account → Decimal) :
    order.Booked (accounts.map fun a => { a with balance := balance a }) := by
  obtain ⟨source, hsource, target, htarget, hfrom, hto, hcurrency⟩ := h.parties
  refine ⟨h.distinct, ?_, h.cents⟩
  exact ⟨_, List.mem_map_of_mem hsource, _, List.mem_map_of_mem htarget, hfrom, hto, hcurrency⟩

section Takes

variable {s : Scope} {order : TransferOrder} {source target : Account} {p : Posting}

/-- An order that a scope takes can be booked on what the scope shows. -/
theorem Scope.Takes.booked (h : s.Takes order source target p) :
    (p.order order).Booked s.shown := by
  obtain ⟨n, hpos, hn⟩ := h.settled.exists_cents
  refine ⟨?_, ?_, n, hpos, ?_⟩
  · show order.source ≠ order.target
    rw [← h.source_id, ← h.target_id]
    exact h.settled.distinct
  · exact ⟨source, h.source_mem, target, h.target_mem, h.source_id, h.target_id, h.settled.currency⟩
  · show p.amount.value = n / 100
    rw [h.settled.booked, Decimal.value_asMoney, hn]

end Takes

theorem keptByTransfers_booked :
    KeptByTransfers fun accounts history => ∀ order ∈ history, order.Booked accounts := by
  intro s order source target p ht h
  obtain ⟨balance, hupdate, -⟩ := p.exists_balance order
  have hmap : s.shown.map (p.update order) =
      s.shown.map fun a => { a with balance := balance a } := by
    refine List.map_congr_left ?_
    intro a _
    exact hupdate a
  rw [hmap]
  -- the orders before were booked on the accounts before, which differ by balances only
  intro booked hbooked
  apply TransferOrder.Booked.map
  rcases List.mem_append.1 hbooked with hold | hnew
  · exact h booked hold
  · obtain rfl := List.mem_singleton.1 hnew
    exact ht.booked

/-! ## Balances that change -/

/-- Accounts as they are after orders: only balances can have changed, and only those of accounts
that an order names. -/
def Rebalanced (orders : List TransferOrder) (before after : List Account) : Prop :=
  ∃ balance : Account → Decimal, after = before.map (fun a => { a with balance := balance a }) ∧
    ∀ a, balance a ≠ a.balance → ∃ order ∈ orders, a.id = order.source ∨ a.id = order.target

theorem Rebalanced.refl (accounts : List Account) : Rebalanced [] accounts accounts := by
  refine ⟨Account.balance, (List.map_id accounts).symm, ?_⟩
  intro a hchanged
  exact absurd rfl hchanged

/-- One more order can change the balances of the two accounts that it names. -/
theorem Rebalanced.update {orders : List TransferOrder} {before after : List Account}
    (h : Rebalanced orders before after) (order : TransferOrder) (p : Posting) :
    Rebalanced (orders ++ [p.order order]) before (after.map (p.update order)) := by
  obtain ⟨balance, rfl, hnamed⟩ := h
  obtain ⟨last, hupdate, hothers⟩ := p.exists_balance order
  refine ⟨fun a => last { a with balance := balance a }, ?_, ?_⟩
  · rw [List.map_map]
    refine List.map_congr_left ?_
    intro a _
    exact hupdate _
  · intro a hchanged
    by_cases hparty : a.id = order.source ∨ a.id = order.target
    · exact ⟨p.order order, List.mem_append_right _ (List.mem_singleton_self _), hparty⟩
    · -- the last order leaves the balance, so an order before it has changed it
      rw [not_or] at hparty
      have hlast : last { a with balance := balance a } = balance a := hothers _ hparty.1 hparty.2
      change last { a with balance := balance a } ≠ a.balance at hchanged
      rw [hlast] at hchanged
      obtain ⟨named, hmem, hname⟩ := hnamed a hchanged
      exact ⟨named, List.mem_append_left _ hmem, hname⟩

/-- What has changed since a ledger, and the transfers that account for it. -/
theorem keptByTransfers_rebalanced (before : Ledger) :
    KeptByTransfers fun accounts history => ∃ orders, history = before.history ++ orders ∧
      Rebalanced orders before.accounts accounts := by
  rintro s order source target p - ⟨orders, hhistory, hrebalanced⟩
  refine ⟨orders ++ [p.order order], ?_, hrebalanced.update order p⟩
  rw [hhistory, List.append_assoc]

/-! ## Both books -/

/-- The books are sound. Take a ledger that was built from accounts and any dealings with it,
through scopes and at the desk, whether they succeed or not.

* The entries of the journal have the numbers from one on in order, and the next number is the one
behind them.
* Each entry is a transfer of whole cents above zero between two different accounts, which the
ledger has and which have one currency.
* Whatever further dealings there are, the journal stays and entries are only added behind it. The
accounts stay, with all that is known of them but their balances, and where a balance is another
one, an added entry names the account. -/
theorem books_sound {accounts : List Account} {start : Ledger}
    (hstart : Ledger.ofAccounts accounts = .ok start) (dealings : List Dealing) :
    (start.dealAll dealings).journal.map JournalEntry.number =
      List.range' 1 (start.dealAll dealings).journal.length ∧
    (start.dealAll dealings).nextNumber = (start.dealAll dealings).journal.length + 1 ∧
    (∀ entry ∈ (start.dealAll dealings).journal,
      entry.order.Booked (start.dealAll dealings).accounts) ∧
    ∀ more, ∃ added, ((start.dealAll dealings).dealAll more).journal =
        (start.dealAll dealings).journal ++ added ∧
      Rebalanced (added.map JournalEntry.order) (start.dealAll dealings).accounts
        ((start.dealAll dealings).dealAll more).accounts := by
  have hnumbered := (Ledger.Numbered.of_ofAccounts hstart).dealAll dealings
  have hbooked : ∀ order ∈ (start.dealAll dealings).history,
      order.Booked (start.dealAll dealings).accounts := by
    refine keptByTransfers_booked.dealAll ?_ dealings
    rw [Ledger.history_of_ofAccounts hstart]
    intro order horder
    cases horder
  generalize start.dealAll dealings = l at hnumbered hbooked
  refine ⟨?_, ?_, ?_, ?_⟩
  · rw [← l.length_history, ← Ledger.map_number_entries, ← hnumbered.journal]
  · rw [hnumbered.nextNumber, l.length_history, Nat.add_comm]
  · intro entry hentry
    exact hbooked entry.order (List.mem_map_of_mem hentry)
  · intro more
    have hlater := hnumbered.dealAll more
    obtain ⟨orders, hhistory, hrebalanced⟩ := (keptByTransfers_rebalanced l).dealAll
      ⟨[], (List.append_nil _).symm, Rebalanced.refl l.accounts⟩ more
    refine ⟨Ledger.entries (1 + l.history.length) orders, ?_, ?_⟩
    · rw [hlater.journal, hhistory, Ledger.entries_append, ← hnumbered.journal]
    · rw [Ledger.map_order_entries]
      exact hrebalanced

/-- A ledger with two accounts in one currency and one in another. -/
def threeAccounts : Ledger where
  accounts := [
    { id := 1, balance := Decimal.ofParts 1000 2, currency := "USD" },
    { id := 2, balance := Decimal.ofParts 0 2, currency := "USD" },
    { id := 3, balance := Decimal.ofParts 500 2, currency := "EUR" }]
  ascending := by decide

/-- A visit with two transfers, one that is refused at its second transfer because of the
currencies, and a transfer at the desk. -/
def paidAndRefused : List Dealing :=
  [.visit {
      access := .readWrite
      statements := [.transfer ⟨1, 2, Decimal.ofParts 4 0, "lend"⟩,
        .transfer ⟨2, 1, Decimal.ofParts 15 1, "return"⟩]
      closing := .commit },
    .visit {
      access := .readWrite
      statements := [.transfer ⟨1, 2, Decimal.ofParts 1 0, "pay"⟩,
        .transfer ⟨2, 3, Decimal.ofParts 1 0, "exchange"⟩]
      closing := .commit },
    .request (.ok (.transfer ⟨2, 1, Decimal.ofParts 5 1, "return"⟩))]

/-- One more transfer at the desk. -/
def lastReturn : List Dealing :=
  [.request (.ok (.transfer ⟨2, 1, Decimal.ofParts 2 0, "return"⟩))]

theorem threeAccounts_sound :
    Ledger.ofAccounts threeAccounts.accounts = .ok threeAccounts ∧
    (threeAccounts.dealAll paidAndRefused).journal.map JournalEntry.number = [1, 2, 3] ∧
    (threeAccounts.dealAll paidAndRefused).nextNumber = 4 ∧
    (∀ entry ∈ (threeAccounts.dealAll paidAndRefused).journal,
      entry.order.Booked (threeAccounts.dealAll paidAndRefused).accounts) ∧
    ∃ added, ((threeAccounts.dealAll paidAndRefused).dealAll lastReturn).journal =
        (threeAccounts.dealAll paidAndRefused).journal ++ added ∧
      Rebalanced (added.map JournalEntry.order) (threeAccounts.dealAll paidAndRefused).accounts
        ((threeAccounts.dealAll paidAndRefused).dealAll lastReturn).accounts := by
  have hstart : Ledger.ofAccounts threeAccounts.accounts = .ok threeAccounts := by
    decide
  have hlength : (threeAccounts.dealAll paidAndRefused).journal.length = 3 := by
    decide +kernel
  obtain ⟨hnumbers, hnext, hbooked, hlater⟩ := books_sound hstart paidAndRefused
  rw [hlength] at hnumbers hnext
  exact ⟨hstart, hnumbers, hnext, hbooked, hlater lastReturn⟩

end TransferDesk
