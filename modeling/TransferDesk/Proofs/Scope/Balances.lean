import Mathlib.Logic.Function.Basic
import TransferDesk.Proofs.Scope.Shown
/-!
# The table of balances

What a ledger or a scope says about money is a table: for each number the balance of the account, if
there is one. `Takes.balancesOf_update` says what a transfer does to the table: it sets the balances
of the source and of the target, and nothing else.
-/

namespace TransferDesk

/-- The balance of each account, by the account's number. -/
abbrev Balances := AccountId → Option Decimal

/-- The table of the balances of some accounts. -/
def balancesOf (accounts : List Account) : Balances :=
  fun id => (accounts.find? (·.id = id)).map Account.balance

theorem balancesOf_accounts (l : Ledger) (id : AccountId) :
    balancesOf l.accounts id = (l.find? id).map Account.balance :=
  rfl

namespace Scope

theorem balancesOf_shown (s : Scope) (id : AccountId) :
    balancesOf s.shown id = (s.view? id).map Account.balance := by
  unfold balancesOf shown view? Ledger.find?
  rw [List.find?_map]
  congr 3
  funext a
  simp

section Takes

variable {s : Scope} {order : TransferOrder} {source target : Account} {p : Posting}

theorem Takes.order_distinct (h : s.Takes order source target p) : order.source ≠ order.target := by
  rw [← h.source_id, ← h.target_id]
  exact h.settled.distinct

theorem Takes.balancesOf_source (h : s.Takes order source target p) :
    balancesOf s.shown order.source = some source.balance := by
  rw [balancesOf_shown, h.view_source, Option.map_some]

theorem Takes.balancesOf_target (h : s.Takes order source target p) :
    balancesOf s.shown order.target = some target.balance := by
  rw [balancesOf_shown, h.view_target, Option.map_some]

/-- A transfer sets two balances of the table. -/
theorem Takes.balancesOf_update (h : s.Takes order source target p) :
    balancesOf (s.shown.map (p.update order)) =
      Function.update (Function.update (balancesOf s.shown) order.source (some p.sourceBalance))
        order.target (some p.targetBalance) := by
  funext id
  rw [← shown_staging, balancesOf_shown, view?_staging]
  by_cases ht : id = order.target
  · rw [ht, Function.update_self, h.view_target, Option.map_some, h.update_target, Option.map_some]
  · rw [Function.update_of_ne ht]
    by_cases hs : id = order.source
    · rw [hs, Function.update_self, h.view_source, Option.map_some, h.update_source,
        Option.map_some]
    · -- an account that is named on neither side stays as it is
      rw [Function.update_of_ne hs, balancesOf_shown, ← view?_staging, view?_staging_of_ne hs ht]

end Takes

end Scope

end TransferDesk
