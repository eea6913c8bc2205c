import TransferDesk.Proofs.Decimal.Value
import TransferDesk.Proofs.Ledger.Building
import TransferDesk.Proofs.Scope.Balances
import TransferDesk.Proofs.Visit
/-!
# The journal explains the balances

A commit sets the balances that an account has in the end and writes the transfers into the journal
one by one, so the two could drift apart. They do not: the balances are what comes of making the
transfers of the journal once more, in order, on the balances the ledger was built with.

* `redo?`, `replay?`: making transfers once more, on a table of balances and nothing else;
* `Explains`: a history leads from one table to another, and every transfer in it was covered;
* `Explains.concat`: a transfer that a scope takes is one more step of the same replay;
* `journal_explains_balances`: so whatever visits are made, the journal leads to the balances.
-/

namespace TransferDesk

open Scope (KeptByTransfers)

namespace Balances

/-- The table with another balance of an account, which has to exist. -/
def change? (b : Balances) (id : AccountId) (f : Decimal → Option Decimal) : Option Balances :=
  match b id with
  | none => none
  | some balance => (f balance).map fun changed => Function.update b id (some changed)

/-- The table after a transfer: its amount is taken off the source, and then put onto the target. -/
def redo? (b : Balances) (order : TransferOrder) : Option Balances :=
  (b.change? order.source (·.sub? order.amount)).bind
    (·.change? order.target (·.add? order.amount))

/-- The table after transfers, the oldest first. -/
def replay? (b : Balances) (history : List TransferOrder) : Option Balances :=
  history.foldlM redo? b

theorem replay?_concat (b : Balances) (history : List TransferOrder) (order : TransferOrder) :
    b.replay? (history ++ [order]) = (b.replay? history).bind (·.redo? order) := by
  have hone : (fun now : Balances => [order].foldlM redo? now) = (·.redo? order) := by
    funext now
    rw [List.foldlM_cons]
    exact bind_pure _
  unfold replay?
  rw [List.foldlM_append, hone]
  rfl

theorem change?_eq_some {b : Balances} {id : AccountId} {f : Decimal → Option Decimal}
    {balance changed : Decimal} (hb : b id = some balance) (hf : f balance = some changed) :
    b.change? id f = some (Function.update b id (some changed)) := by
  unfold change?
  rw [hb]
  simp only [hf, Option.map_some]

end Balances

/-- A history leads from one table of balances to another. At the point where a transfer stands in
it, the balance of the source covers the amount. -/
structure Explains (start : Balances) (history : List TransferOrder) (now : Balances) : Prop where
  replayed : start.replay? history = some now
  covered : ∀ before order after, history = before ++ order :: after →
    ∃ table balance, start.replay? before = some table ∧ table order.source = some balance ∧
      order.amount.value ≤ balance.value

theorem Explains.nil (start : Balances) : Explains start [] start := by
  constructor
  · rfl
  · intro before order after h
    exact absurd h.symm (List.append_ne_nil_of_right_ne_nil before (List.cons_ne_nil order after))

/-- A transfer that a scope takes is one more step of the replay. -/
theorem Explains.concat {start : Balances} {s : Scope} {history : List TransferOrder}
    {order : TransferOrder} {source target : Account} {p : Posting}
    (h : Explains start history (balancesOf s.shown)) (ht : s.Takes order source target p) :
    Explains start (history ++ [p.order order]) (balancesOf (s.shown.map (p.update order))) := by
  have hbooked : (p.order order).amount = order.amount.asMoney := ht.settled.booked
  constructor
  · have hdebit : (balancesOf s.shown).change? order.source (·.sub? (p.order order).amount) =
        some (Function.update (balancesOf s.shown) order.source (some p.sourceBalance)) := by
      apply Balances.change?_eq_some ht.balancesOf_source
      rw [hbooked]
      exact ht.settled.debit
    -- the source is another account, so the target still has the balance that the scope showed
    have htarget : Function.update (balancesOf s.shown) order.source (some p.sourceBalance)
        order.target = some target.balance := by
      rw [Function.update_of_ne ht.order_distinct.symm, ht.balancesOf_target]
    rw [Balances.replay?_concat, h.replayed, Option.bind_some, ht.balancesOf_update]
    change ((balancesOf s.shown).change? order.source _).bind _ = _
    rw [hdebit, Option.bind_some]
    apply Balances.change?_eq_some htarget
    rw [hbooked]
    exact ht.settled.credit
  · intro before last after hsplit
    rcases List.eq_nil_or_concat after with rfl | ⟨between, newest, rfl⟩
    · -- the new transfer itself, on the balances that the scope shows
      obtain ⟨rfl, hlast⟩ := List.append_inj' hsplit rfl
      obtain rfl : p.order order = last := (List.cons.inj hlast).1
      refine ⟨balancesOf s.shown, source.balance, h.replayed, ht.balancesOf_source, ?_⟩
      have hfunds := ht.settled.funds
      rw [Decimal.lt_iff_value_lt, not_lt] at hfunds
      rw [hbooked]
      exact hfunds
    · have hinit : history = before ++ last :: between := by
        rw [List.concat_eq_append, ← List.cons_append, ← List.append_assoc] at hsplit
        exact (List.append_inj' hsplit rfl).1
      exact h.covered before last between hinit

theorem keptByTransfers_explains (start : Balances) :
    KeptByTransfers fun accounts history => Explains start history (balancesOf accounts) := by
  intro s order source target p ht h
  exact h.concat ht

/-- The journal explains the balances. Take a ledger that was built from accounts. Whatever visits
are made to it, replaying its journal on the balances that it was built with succeeds and gives the
balances that it has, with their scales, and each amount was covered where it was moved. The same
holds of what a scope shows that is still open, with the transfers that are staged in it. -/
theorem journal_explains_balances {accounts : List Account} {start : Ledger}
    (hstart : Ledger.ofAccounts accounts = .ok start) (visits : List Visit) :
    Explains (balancesOf start.accounts) (start.visitAll visits).2.history
        (balancesOf (start.visitAll visits).2.accounts) ∧
      ∀ v, Explains (balancesOf start.accounts) ((start.visitAll visits).2.openScope v).history
        (balancesOf ((start.visitAll visits).2.openScope v).shown) := by
  have hkept := keptByTransfers_explains (balancesOf start.accounts)
  have hinit : Explains (balancesOf start.accounts) start.history (balancesOf start.accounts) := by
    have hnew : start.history = [] := by
      unfold Ledger.history
      rw [(Ledger.ofAccounts_eq_ok hstart).2.1, List.map_nil]
    rw [hnew]
    exact Explains.nil _
  have hlast := hkept.visitAll (l := start) hinit visits
  exact ⟨hlast, fun v => hkept.openScope hlast v⟩

/-- A ledger with one account that holds money and one that holds none. -/
def fullAndEmpty : Ledger where
  accounts := [
    { id := 1, balance := Decimal.ofParts 10000 2, currency := "USD" },
    { id := 2, balance := Decimal.ofParts 0 2, currency := "USD" }]
  ascending := by decide

/-- A visit that moves money there and a part of it back, and one that is refused at its second
transfer and so leaves nothing in the journal. -/
def thereAndBack : List Visit :=
  let there (amount : Decimal) : Statement := .transfer ⟨1, 2, amount, "there"⟩
  let back (amount : Decimal) : Statement := .transfer ⟨2, 1, amount, "back"⟩
  [{ access := .readWrite,
      statements := [there (Decimal.ofParts 30 0), back (Decimal.ofParts 105 1)],
      closing := .commit },
    { access := .readWrite,
      statements := [back (Decimal.ofParts 1 0), back (Decimal.ofParts 50 0)],
      closing := .commit }]

theorem thereAndBack_explained :
    Ledger.ofAccounts fullAndEmpty.accounts = .ok fullAndEmpty ∧
    (fullAndEmpty.visitAll thereAndBack).2.history.map TransferOrder.amount =
      [Decimal.ofParts 3000 2, Decimal.ofParts 1050 2] ∧
    (fullAndEmpty.visitAll thereAndBack).2.accounts.map Account.balance =
      [Decimal.ofParts 8050 2, Decimal.ofParts 1950 2] ∧
    Explains (balancesOf fullAndEmpty.accounts) (fullAndEmpty.visitAll thereAndBack).2.history
      (balancesOf (fullAndEmpty.visitAll thereAndBack).2.accounts) ∧
    ∀ v, Explains (balancesOf fullAndEmpty.accounts)
      ((fullAndEmpty.visitAll thereAndBack).2.openScope v).history
      (balancesOf ((fullAndEmpty.visitAll thereAndBack).2.openScope v).shown) := by
  have hstart : Ledger.ofAccounts fullAndEmpty.accounts = .ok fullAndEmpty := by
    decide
  have hhistory : (fullAndEmpty.visitAll thereAndBack).2.history.map TransferOrder.amount =
      [Decimal.ofParts 3000 2, Decimal.ofParts 1050 2] := by
    decide +kernel
  have hbalances : (fullAndEmpty.visitAll thereAndBack).2.accounts.map Account.balance =
      [Decimal.ofParts 8050 2, Decimal.ofParts 1950 2] := by
    decide +kernel
  exact ⟨hstart, hhistory, hbalances, journal_explains_balances hstart thereAndBack⟩

end TransferDesk
