import Mathlib.Data.Option.Basic
import TransferDesk.Proofs.Desk.Effects
import TransferDesk.Proofs.Ledger.Building
import TransferDesk.Proofs.Scope.Balances
import TransferDesk.Proofs.Settlement
/-!
# No overdraft

A transfer leaves the source with no less than nothing and the target with no less than it had, even
where sums are rounded (`Settled.sourceBalance_nonneg`, `Settled.le_targetBalance`). So no balance
ever falls below zero, and one that is below zero to begin with never falls at all.

`Decimal.NoLower` says this of two balances of one account and `Balances.NoOverdraft` of all
accounts. It is transitive, so one transfer at a time has to be looked at (`Takes.noOverdraft`), and
every run keeps it (`never_overdrawn`).
-/

namespace TransferDesk

open Scope (KeptByTransfers)

/-- A later balance is not below both zero and an earlier one. -/
def Decimal.NoLower (first last : Decimal) : Prop :=
  min 0 first.value ≤ last.value

theorem Decimal.NoLower.refl (d : Decimal) : d.NoLower d :=
  min_le_right 0 d.value

theorem Decimal.NoLower.trans {a b c : Decimal} (hab : a.NoLower b) (hbc : b.NoLower c) :
    a.NoLower c := by
  unfold NoLower at *
  rcases le_total 0 b.value with hb | hb
  · rw [min_eq_left hb] at hbc
    exact le_trans (min_le_left 0 a.value) hbc
  · rw [min_eq_right hb] at hbc
    exact le_trans hab hbc

/-- The accounts are the same, and no later balance is below both zero and the earlier one. -/
def Balances.NoOverdraft (first last : Balances) : Prop :=
  ∀ id, Option.Rel Decimal.NoLower (first id) (last id)

namespace Balances

theorem NoOverdraft.refl (b : Balances) : b.NoOverdraft b := by
  intro id
  cases b id with
  | none => exact .none
  | some balance => exact .some (.refl balance)

theorem NoOverdraft.trans {a b c : Balances} (hab : a.NoOverdraft b) (hbc : b.NoOverdraft c) :
    a.NoOverdraft c := by
  intro id
  have hfirst := hab id
  have hlast := hbc id
  generalize a id = x, b id = y, c id = z at hfirst hlast
  cases hfirst with
  | none =>
    cases hlast
    exact .none
  | some hxy =>
    cases hlast with
    | some hyz => exact .some (hxy.trans hyz)

end Balances

namespace Scope

variable {s : Scope} {order : TransferOrder} {source target : Account} {p : Posting}

theorem Takes.noOverdraft (h : s.Takes order source target p) :
    (balancesOf s.shown).NoOverdraft (balancesOf (s.shown.map (p.update order))) := by
  intro id
  rw [h.balancesOf_update]
  by_cases ht : id = order.target
  · rw [ht, Function.update_self, h.balancesOf_target]
    exact .some (le_trans (min_le_right _ _) h.settled.le_targetBalance)
  · rw [Function.update_of_ne ht]
    by_cases hs : id = order.source
    · rw [hs, Function.update_self, h.balancesOf_source]
      exact .some (le_trans (min_le_left _ _) h.settled.sourceBalance_nonneg)
    · rw [Function.update_of_ne hs]
      exact Balances.NoOverdraft.refl _ id

end Scope

theorem keptByTransfers_noOverdraft (first : Balances) :
    KeptByTransfers fun accounts _ => first.NoOverdraft (balancesOf accounts) := by
  intro s order source target p ht h
  exact h.trans ht.noOverdraft

/-- An account of a ledger was there with another balance, if there was no overdraft in between. -/
theorem Balances.NoOverdraft.exists_account {first last : Ledger} {b : Account}
    (h : (balancesOf first.accounts).NoOverdraft (balancesOf last.accounts))
    (hb : b ∈ last.accounts) :
    ∃ a ∈ first.accounts, a.id = b.id ∧ a.balance.NoLower b.balance := by
  have hfound : last.find? b.id = some b := Ledger.find?_eq_some_iff.2 ⟨hb, rfl⟩
  have hrel := h b.id
  rw [balancesOf_accounts, balancesOf_accounts, hfound, Option.map_some] at hrel
  cases ha : first.find? b.id with
  | none =>
    rw [ha] at hrel
    exact absurd hrel (by rintro ⟨⟩)
  | some a =>
    rw [ha, Option.map_some] at hrel
    obtain ⟨hmem, hid⟩ := Ledger.find?_eq_some_iff.1 ha
    cases hrel with
    | some hlower => exact ⟨a, hmem, hid, hlower⟩

/-- No overdraft in any run. Take a ledger that was built from accounts, whatever their balances
are, and any dealings with it. In the state that is reached, the balance of every account is at
least the smaller of zero and the balance it was inserted with. From that state on, whatever further
dealings there are and whatever an open scope shows, no balance that is below zero falls and no
other falls below zero; and a transfer that a scope takes is covered by the balance it takes it
from. -/
theorem never_overdrawn {accounts : List Account} {start : Ledger}
    (hstart : Ledger.ofAccounts accounts = .ok start) (dealings : List Dealing) :
    (∀ b ∈ (start.dealAll dealings).accounts, ∃ a ∈ accounts, a.id = b.id ∧
      min 0 a.balance.value ≤ b.balance.value ∧ (0 ≤ a.balance.value → 0 ≤ b.balance.value)) ∧
    (∀ more, (balancesOf (start.dealAll dealings).accounts).NoOverdraft
      (balancesOf ((start.dealAll dealings).dealAll more).accounts)) ∧
    ∀ v, (balancesOf (start.dealAll dealings).accounts).NoOverdraft
        (balancesOf ((start.dealAll dealings).openScope v).shown) ∧
      ∀ order after,
        ((start.dealAll dealings).openScope v).run (.transfer order) = (.ok (), after) →
        ∃ source, ((start.dealAll dealings).openScope v).view? order.source = some source ∧
          0 < order.amount.value ∧ order.amount.value ≤ source.balance.value := by
  have hkept (l : Ledger) := keptByTransfers_noOverdraft (balancesOf l.accounts)
  refine ⟨?_, ?_, ?_⟩
  · intro b hb
    have hrun := (hkept start).dealAll (l := start) (.refl _) dealings
    obtain ⟨c, hc, hid, hlower⟩ := hrun.exists_account hb
    obtain ⟨a, ha, -, rfl⟩ := (Ledger.ofAccounts_eq_ok hstart).1 c hc
    have hmin : min 0 a.balance.value ≤ b.balance.value := by
      rw [← Decimal.value_asMoney]
      exact hlower
    refine ⟨a, ha, hid, hmin, ?_⟩
    intro hpos
    rwa [min_eq_left hpos] at hmin
  · intro more
    exact (hkept _).dealAll (l := start.dealAll dealings) (.refl _) more
  · intro v
    refine ⟨(hkept _).openScope (l := start.dealAll dealings) (.refl _) v, ?_⟩
    intro order after hrun
    obtain ⟨source, target, p, ht, -⟩ := Scope.run_transfer_eq_ok hrun
    exact ⟨source, ht.view_source, ht.settled.amount_covered⟩

/-- A ledger with an account in debt, one in credit and one at the limit of 96 bits. -/
def debtAndLimit : Ledger where
  accounts := [
    { id := 1, balance := Decimal.ofParts (-550) 2, currency := "USD" },
    { id := 2, balance := Decimal.ofParts 10000 2, currency := "USD" },
    { id := 3, balance := Decimal.ofParts (2 ^ 96 - 2) 0, currency := "USD" }]
  ascending := by decide

/-- A part of the debt is paid, the debtor tries to spend, and a cent is rounded away at the
limit. -/
def payAndSpend : List Dealing :=
  [.request (.ok (.transfer ⟨2, 1, Decimal.ofParts 2 0, "pay"⟩)),
    .visit {
      access := .readWrite
      statements := [.transfer ⟨1, 2, Decimal.ofParts 1 2, "spend"⟩]
      closing := .commit },
    .request (.ok (.transfer ⟨2, 3, Decimal.ofParts 1 2, "cent"⟩))]

theorem payAndSpend_never_overdrawn :
    Ledger.ofAccounts debtAndLimit.accounts = .ok debtAndLimit ∧
    (debtAndLimit.dealAll payAndSpend).accounts.map Account.balance =
      [Decimal.ofParts (-350) 2, Decimal.ofParts 9799 2, Decimal.ofParts (2 ^ 96 - 2) 0] ∧
    (∀ b ∈ (debtAndLimit.dealAll payAndSpend).accounts, ∃ a ∈ debtAndLimit.accounts, a.id = b.id ∧
      min 0 a.balance.value ≤ b.balance.value ∧ (0 ≤ a.balance.value → 0 ≤ b.balance.value)) ∧
    (∀ more, (balancesOf (debtAndLimit.dealAll payAndSpend).accounts).NoOverdraft
      (balancesOf ((debtAndLimit.dealAll payAndSpend).dealAll more).accounts)) ∧
    ∀ v, (balancesOf (debtAndLimit.dealAll payAndSpend).accounts).NoOverdraft
        (balancesOf ((debtAndLimit.dealAll payAndSpend).openScope v).shown) ∧
      ∀ order after,
        ((debtAndLimit.dealAll payAndSpend).openScope v).run (.transfer order) = (.ok (), after) →
        ∃ source, ((debtAndLimit.dealAll payAndSpend).openScope v).view? order.source =
            some source ∧
          0 < order.amount.value ∧ order.amount.value ≤ source.balance.value := by
  have hstart : Ledger.ofAccounts debtAndLimit.accounts = .ok debtAndLimit := by
    decide +kernel
  have hbalances : (debtAndLimit.dealAll payAndSpend).accounts.map Account.balance =
      [Decimal.ofParts (-350) 2, Decimal.ofParts 9799 2, Decimal.ofParts (2 ^ 96 - 2) 0] := by
    decide +kernel
  exact ⟨hstart, hbalances, never_overdrawn hstart payAndSpend⟩

end TransferDesk
