import TransferDesk.Ledger
/-!
# What posting does to a ledger

To post balances and transfers sets the balances, writes the transfers behind the journal and goes
on counting behind them. So nothing happens if nothing is posted (`post_nil`), and to post twice is
to post once, with the transfers of both and with the balances that both leave (`post_post`).
-/

namespace TransferDesk.Ledger

theorem map_order_entries (first : Nat) (orders : List TransferOrder) :
    (entries first orders).map JournalEntry.order = orders := by
  induction orders generalizing first with
  | nil => rfl
  | cons order orders ih => rw [entries, List.map_cons, ih]

/-- The entries of further transfers are numbered on. -/
theorem entries_append (first : Nat) (xs ys : List TransferOrder) :
    entries first (xs ++ ys) = entries first xs ++ entries (first + xs.length) ys := by
  induction xs generalizing first with
  | nil => rfl
  | cons x xs ih =>
    have hnext : first + 1 + xs.length = first + (xs.length + 1) := by omega
    rw [List.cons_append, entries, ih, hnext]
    rfl

/-- A ledger is its accounts, its journal and the next number. -/
theorem eq_of_fields {l m : Ledger} (haccounts : l.accounts = m.accounts)
    (hjournal : l.journal = m.journal) (hnext : l.nextNumber = m.nextNumber) : l = m := by
  cases l
  cases m
  subst haccounts hjournal hnext
  rfl

theorem post_nil (l : Ledger) : l.post [] [] = l := by
  apply eq_of_fields
  · exact List.map_id l.accounts
  · exact List.append_nil l.journal
  · rfl

theorem post_post (l : Ledger) {first second both : List (AccountId × Decimal)}
    (hboth : ∀ a, rebalance both a = rebalance second (rebalance first a))
    (xs ys : List TransferOrder) :
    (l.post first xs).post second ys = l.post both (xs ++ ys) := by
  apply eq_of_fields
  · change (l.accounts.map (rebalance first)).map (rebalance second) =
      l.accounts.map (rebalance both)
    rw [List.map_map]
    refine List.map_congr_left ?_
    intro a _
    exact (hboth a).symm
  · change l.journal ++ entries l.nextNumber xs ++ entries (l.nextNumber + xs.length) ys =
      l.journal ++ entries l.nextNumber (xs ++ ys)
    rw [entries_append, List.append_assoc]
  · change l.nextNumber + xs.length + ys.length = l.nextNumber + (xs ++ ys).length
    rw [List.length_append, Nat.add_assoc]

end TransferDesk.Ledger
