import Mathlib.Algebra.Order.BigOperators.Group.List
import TransferDesk.Proofs.Decimal.Sum
import TransferDesk.Proofs.Ledger.Building
import TransferDesk.Proofs.Visit
/-!
# Conservation of money

Visits move money between accounts and never make or lose any, as long as the money there is can be
counted in cents within 96 bits. The invariant `AtCents` is stronger than that statement: every
balance has exactly two places, no balance falls below what 96 bits hold, and the positive balances
together stay within 96 bits. A transfer takes from a positive balance no more than it holds, so the
sum of the positive balances cannot grow, and both new balances fit at two places again.

* `AtCents.exists_balances`: both new balances are found, at two places, and are exact;
* `AtCents.update`, `AtCents.totalIn_update`: a transfer keeps the invariant and the total of every
  currency;
* `total_conserved_and_never_overflows`: so do all visits, and no transfer is refused for its size.
-/

namespace TransferDesk

open Scope (KeptByTransfers)

/-- The exact sum of the balances in a currency. -/
def totalIn (currency : String) (accounts : List Account) : ℚ :=
  ((accounts.filter (·.currency = currency)).map (·.balance.value)).sum

/-- A balance as far as it is positive, counted in cents. -/
def Account.assets (a : Account) : ℚ :=
  max 0 a.balance.cents

/-- The positive balances together, counted in cents. -/
def assets (accounts : List Account) : ℚ :=
  (accounts.map Account.assets).sum

/-- Accounts whose money can be counted in cents within 96 bits. -/
structure AtCents (accounts : List Account) : Prop where
  scale : ∀ a ∈ accounts, a.balance.scale = 2
  above : ∀ a ∈ accounts, -2 ^ 96 < a.balance.cents
  bounded : assets accounts < 2 ^ 96

/-! ## Sums over accounts -/

/-- A sum in which only one account counts differently. -/
theorem sum_map_of_eq_off {as : List Account} (h : Keyed.Ascending Account.key as) {x : Account}
    (hx : x ∈ as) {f g : Account → ℚ} (hg : ∀ a ∈ as, a.id ≠ x.id → g a = f a) :
    (as.map g).sum = (as.map f).sum + (g x - f x) := by
  induction as with
  | nil => exact absurd hx List.not_mem_nil
  | cons b bs ih =>
    obtain ⟨first, rest⟩ := List.pairwise_cons.1 h
    rw [List.map_cons, List.map_cons, List.sum_cons, List.sum_cons]
    rcases List.mem_cons.1 hx with rfl | hx
    · have htail : bs.map g = bs.map f := by
        refine List.map_congr_left ?_
        intro a ha
        refine hg a (List.mem_cons_of_mem x ha) ?_
        intro hid
        have := first a ha
        rw [Account.key, Account.key, hid] at this
        exact absurd this (lt_irrefl _)
      rw [htail]
      ring
    · have hb : g b = f b := by
        refine hg b List.mem_cons_self ?_
        intro hid
        have := first x hx
        rw [Account.key, Account.key, hid] at this
        exact absurd this (lt_irrefl _)
      rw [ih rest hx fun a ha => hg a (List.mem_cons_of_mem b ha), hb]
      ring

namespace Scope

variable {s : Scope} {order : TransferOrder} {source target : Account} {p : Posting}

/-- A transfer changes a sum over the accounts by what it changes at its two accounts. -/
theorem Takes.sum_map_update (h : s.Takes order source target p) (f : Account → ℚ) :
    ((s.shown.map (p.update order)).map f).sum = (s.shown.map f).sum +
      (f { source with balance := p.sourceBalance } - f source) +
      (f { target with balance := p.targetBalance } - f target) := by
  have hne := h.settled.distinct
  -- the sum after the source has been debited and before the target is credited
  let debited (a : Account) : ℚ := if a.id = source.id then f (p.update order a) else f a
  have hdebit : (s.shown.map debited).sum =
      (s.shown.map f).sum + (debited source - f source) := by
    refine sum_map_of_eq_off s.ascending_shown h.source_mem ?_
    intro a _ hid
    exact if_neg hid
  have hcredit : (s.shown.map (f ∘ p.update order)).sum =
      (s.shown.map debited).sum + ((f ∘ p.update order) target - debited target) := by
    refine sum_map_of_eq_off s.ascending_shown h.target_mem ?_
    intro a _ hid
    by_cases ha : a.id = source.id
    · exact (if_pos ha).symm
    · have hsame : p.update order a = a := by
        unfold Posting.update
        rw [if_neg (by rwa [← h.target_id]), if_neg (by rwa [← h.source_id])]
      simp only [debited, if_neg ha, Function.comp_apply, hsame]
  have hsource : debited source = f { source with balance := p.sourceBalance } := by
    simp only [debited, if_pos, h.update_source]
  have htarget : debited target = f target := if_neg hne.symm
  rw [List.map_map, hcredit, hdebit, hsource, htarget, Function.comp_apply, h.update_target]

end Scope

theorem assets_nonneg (a : Account) : 0 ≤ a.assets :=
  le_max_left 0 _

/-- Two different accounts hold no more than all together. -/
theorem assets_add_assets_le {accounts : List Account} {a b : Account} (ha : a ∈ accounts)
    (hb : b ∈ accounts) (hne : a.id ≠ b.id) : a.assets + b.assets ≤ assets accounts := by
  have hsplit := List.sum_map_erase Account.assets ha
  have hb' : b ∈ accounts.erase a := by
    refine (List.mem_erase_of_ne ?_).2 hb
    rintro rfl
    exact hne rfl
  have hle : b.assets ≤ ((accounts.erase a).map Account.assets).sum := by
    refine List.single_le_sum ?_ _ (List.mem_map_of_mem hb')
    intro q hq
    obtain ⟨c, -, rfl⟩ := List.mem_map.1 hq
    exact assets_nonneg c
  rw [assets, ← hsplit]
  linarith

theorem totalIn_eq_sum (currency : String) (accounts : List Account) :
    totalIn currency accounts =
      (accounts.map fun a => if a.currency = currency then a.balance.value else 0).sum := by
  unfold totalIn
  induction accounts with
  | nil => rfl
  | cons a as ih =>
    rw [List.map_cons, List.sum_cons, ← ih]
    by_cases h : a.currency = currency
    · rw [List.filter_cons_of_pos (by simpa using h), List.map_cons, List.sum_cons, if_pos h]
    · rw [List.filter_cons_of_neg (by simpa using h), if_neg h, zero_add]

/-! ## One transfer -/

/-- A transfer that the funds cover finds both new balances, at two places and exactly. -/
theorem AtCents.exists_balances {accounts : List Account} (h : AtCents accounts)
    {source target : Account} (hs : source ∈ accounts) (ht : target ∈ accounts)
    (hne : source.id ≠ target.id) {amount : Decimal} (hpos : amount.Positive)
    (hmoney : ¬ amount.ExceedsMoney) (hfunds : ¬ source.balance < amount.asMoney) :
    0 < amount.cents ∧ amount.cents ≤ source.balance.cents ∧
      (∃ sb, source.balance.sub? amount.asMoney = some sb ∧ sb.scale = 2 ∧
        sb.cents = source.balance.cents - amount.cents) ∧
      ∃ tb, target.balance.add? amount.asMoney = some tb ∧ tb.scale = 2 ∧
        tb.cents = target.balance.cents + amount.cents := by
  have hamount : 0 < amount.cents := by
    have := Decimal.positive_iff_value_pos.1 hpos
    rw [Decimal.cents]
    linarith
  have hcover : amount.cents ≤ source.balance.cents := by
    rw [Decimal.lt_asMoney_iff, not_lt] at hfunds
    rw [Decimal.cents, Decimal.cents]
    linarith
  have htwo := lt_of_le_of_lt (assets_add_assets_le hs ht hne) h.bounded
  have hsource : source.balance.cents ≤ source.assets := le_max_right 0 _
  have htarget : target.balance.cents ≤ target.assets := le_max_right 0 _
  have htarget0 := assets_nonneg target
  have habove := h.above target ht
  have hscale : amount.asMoney.scale = 2 := by
    refine Decimal.scale_asMoney hmoney ?_
    rw [abs_of_pos hamount]
    linarith
  have hdebit : |source.balance.cents - amount.asMoney.cents| < 2 ^ 96 := by
    rw [Decimal.cents_asMoney, abs_of_nonneg (by linarith)]
    linarith
  have hcredit : |target.balance.cents + amount.asMoney.cents| < 2 ^ 96 := by
    rw [Decimal.cents_asMoney, abs_lt]
    constructor <;> linarith
  obtain ⟨sb, hsb, hsbs, hsbv⟩ := Decimal.sub?_at_cents (h.scale source hs) hscale hdebit
  obtain ⟨tb, htb, htbs, htbv⟩ := Decimal.add?_at_cents (h.scale target ht) hscale hcredit
  rw [Decimal.value_asMoney] at hsbv htbv
  refine ⟨hamount, hcover, ⟨sb, hsb, hsbs, ?_⟩, ⟨tb, htb, htbs, ?_⟩⟩
  · rw [Decimal.cents, hsbv, mul_sub]
    rfl
  · rw [Decimal.cents, htbv, mul_add]
    rfl

section Takes

variable {s : Scope} {order : TransferOrder} {source target : Account} {p : Posting}

/-- A transfer that is taken moves its amount exactly, at two places. -/
theorem AtCents.moved (h : AtCents s.shown) (ht : s.Takes order source target p) :
    0 < order.amount.cents ∧ order.amount.cents ≤ source.balance.cents ∧
      (p.sourceBalance.scale = 2 ∧
        p.sourceBalance.cents = source.balance.cents - order.amount.cents) ∧
      p.targetBalance.scale = 2 ∧
        p.targetBalance.cents = target.balance.cents + order.amount.cents := by
  have hp := ht.settled
  obtain ⟨hamount, hcover, ⟨sb, hsb, hsource⟩, tb, htb, htarget⟩ :=
    h.exists_balances ht.source_mem ht.target_mem hp.distinct hp.positive hp.money hp.funds
  obtain rfl : p.sourceBalance = sb := Option.some.inj (hp.debit.symm.trans hsb)
  obtain rfl : p.targetBalance = tb := Option.some.inj (hp.credit.symm.trans htb)
  exact ⟨hamount, hcover, hsource, htarget⟩

/-- The positive balances together do not grow. -/
theorem AtCents.assets_update_le (h : AtCents s.shown) (ht : s.Takes order source target p) :
    assets (s.shown.map (p.update order)) ≤ assets s.shown := by
  obtain ⟨hamount, hcover, ⟨-, hdebit⟩, -, hcredit⟩ := h.moved ht
  have hsource : max 0 source.balance.cents = source.balance.cents := by
    rw [max_eq_right]
    linarith
  have hdebited : max 0 (source.balance.cents - order.amount.cents) =
      source.balance.cents - order.amount.cents := by
    rw [max_eq_right]
    linarith
  -- of what the source gives up, the target gains no more than that
  have hcredited : max 0 (target.balance.cents + order.amount.cents) ≤
      max 0 target.balance.cents + order.amount.cents := by
    apply max_le
    · have hzero := le_max_left 0 target.balance.cents
      linarith
    · have hself := le_max_right 0 target.balance.cents
      linarith
  unfold assets
  rw [ht.sum_map_update]
  simp only [Account.assets, hdebit, hcredit, hsource, hdebited]
  linarith

theorem AtCents.update (h : AtCents s.shown) (ht : s.Takes order source target p) :
    AtCents (s.shown.map (p.update order)) := by
  obtain ⟨hamount, hcover, ⟨hsscale, hdebit⟩, htscale, hcredit⟩ := h.moved ht
  have habove := h.above target ht.target_mem
  constructor
  · intro a ha
    obtain ⟨b, hb, rfl⟩ := List.mem_map.1 ha
    unfold Posting.update
    split
    · exact htscale
    · split
      · exact hsscale
      · exact h.scale b hb
  · intro a ha
    obtain ⟨b, hb, rfl⟩ := List.mem_map.1 ha
    unfold Posting.update
    split
    · change -2 ^ 96 < p.targetBalance.cents
      linarith
    · split
      · change -2 ^ 96 < p.sourceBalance.cents
        linarith
      · exact h.above b hb
  · exact lt_of_le_of_lt (h.assets_update_le ht) h.bounded

/-- The total of every currency stays what it was. -/
theorem AtCents.totalIn_update (h : AtCents s.shown) (ht : s.Takes order source target p)
    (currency : String) :
    totalIn currency (s.shown.map (p.update order)) = totalIn currency s.shown := by
  obtain ⟨-, -, ⟨-, hdebit⟩, -, hcredit⟩ := h.moved ht
  have hsource : p.sourceBalance.value = source.balance.value - order.amount.value := by
    simp only [Decimal.cents] at hdebit
    linarith
  have htarget : p.targetBalance.value = target.balance.value + order.amount.value := by
    simp only [Decimal.cents] at hcredit
    linarith
  rw [totalIn_eq_sum, totalIn_eq_sum, ht.sum_map_update]
  simp only [ht.settled.currency, hsource, htarget]
  -- the amount counts on both sides or on neither, since the currencies agree
  split
  · ring
  · ring

end Takes

/-- A transfer keeps the money countable and the total of every currency. -/
theorem keptByTransfers_conserved (start : List Account) :
    KeptByTransfers fun accounts _ =>
      AtCents accounts ∧ ∀ currency, totalIn currency accounts = totalIn currency start := by
  intro s order source target p ht ⟨hinv, htotal⟩
  refine ⟨hinv.update ht, ?_⟩
  intro currency
  rw [hinv.totalIn_update ht, htotal]

/-! ## Visits -/

theorem AtCents.of_ofAccounts {accounts : List Account} {start : Ledger}
    (hstart : Ledger.ofAccounts accounts = .ok start)
    (hfits : ∀ a ∈ start.accounts, |a.balance.cents| < 2 ^ 96)
    (hassets : assets start.accounts < 2 ^ 96) : AtCents start.accounts := by
  refine ⟨?_, ?_, hassets⟩
  · intro a ha
    have hcents := hfits a ha
    obtain ⟨b, -, hmoney, rfl⟩ := (Ledger.ofAccounts_eq_ok hstart).1 a ha
    have hb : |b.balance.cents| < 2 ^ 96 := by
      rw [← Decimal.cents_asMoney]
      exact hcents
    exact Decimal.scale_asMoney hmoney hb
  · intro a ha
    exact (abs_lt.1 (hfits a ha)).1

/-- Accounts at cents refuse no transfer for its size. -/
theorem AtCents.settle_ne_overflow {s : Scope} (h : AtCents s.shown) (order : TransferOrder)
    (operation : String) (id : AccountId) : s.stage order ≠ .error (.overflow operation id) := by
  intro hstage
  obtain ⟨source, target, hs, ht, hsettle⟩ := Scope.stage_eq_overflow hstage
  obtain ⟨hpos, hmoney, hne, hfunds, hnone⟩ := settle_eq_overflow hsettle
  obtain ⟨-, -, ⟨sb, hsb, -⟩, tb, htb, -⟩ :=
    h.exists_balances (Scope.view?_eq_some_iff.1 hs).1 (Scope.view?_eq_some_iff.1 ht).1 hne hpos
      hmoney hfunds
  rcases hnone with ⟨-, -, hnone⟩ | ⟨-, -, hnone⟩
  · rw [hsb] at hnone
    exact Option.some_ne_none sb hnone
  · rw [htb] at hnone
    exact Option.some_ne_none tb hnone

/-- Only a transfer that is refused for its size is answered with that fault. -/
theorem Scope.stage_of_run_overflow {s : Scope} {q : Statement} {operation : String}
    {id : AccountId} (h : (s.run q).1 = .error (.overflow operation id)) :
    ∃ order, s.stage order = .error (.overflow operation id) := by
  cases q with
  | access => simp [Scope.run] at h
  | account id =>
    simp only [Scope.run] at h
    split at h <;> simp at h
  | balance id =>
    simp only [Scope.run] at h
    split at h <;> simp at h
  | transfer order =>
    rcases run_transfer_eq_error (Prod.ext h rfl) with hfault | hstage
    · simp at hfault
    · exact ⟨order, hstage⟩

/-- Money is conserved. Take a ledger built from accounts whose balances, and whose positive
balances together, can be counted in cents within 96 bits. Whatever visits are made to it, the total
of every currency stays what it was, also as a scope sees it that is still open, and no statement is
refused because a balance would be out of bounds. -/
theorem total_conserved_and_never_overflows {accounts : List Account} {start : Ledger}
    (hstart : Ledger.ofAccounts accounts = .ok start)
    (hfits : ∀ a ∈ start.accounts, |a.balance.cents| < 2 ^ 96)
    (hassets : assets start.accounts < 2 ^ 96) (visits : List Visit) :
    (∀ currency, totalIn currency (start.visitAll visits).2.accounts =
      totalIn currency start.accounts) ∧
    (∀ v currency, totalIn currency ((start.visitAll visits).2.openScope v).shown =
      totalIn currency start.accounts) ∧
    ∀ log ∈ (start.visitAll visits).1, ∀ o ∈ log.observations, ∀ operation id,
      o.fault? ≠ some (.overflow operation id) := by
  have hkept := keptByTransfers_conserved start.accounts
  have hinit := AtCents.of_ofAccounts hstart hfits hassets
  have hlast := hkept.visitAll (l := start) ⟨hinit, fun _ => rfl⟩ visits
  refine ⟨hlast.2, fun v => (hkept.openScope hlast v).2, ?_⟩
  intro log hlog o ho operation id hfault
  obtain ⟨mid, ⟨hmid, -⟩, he⟩ := hkept.of_mem_visitAll (l := start) ⟨hinit, fun _ => rfl⟩ hlog ho
  have hrun : (mid.run o.statement).1 = .error (.overflow operation id) := by
    rw [he] at hfault
    unfold Scope.Observation.fault? at hfault
    simp only at hfault
    split at hfault
    · simp at hfault
    · rename_i fault hf
      rw [hf, Option.some.inj hfault]
  obtain ⟨order, hstage⟩ := Scope.stage_of_run_overflow hrun
  exact hmid.settle_ne_overflow order operation id hstage

/-- A ledger with one account in credit and one in debt. -/
def creditAndDebt : Ledger where
  accounts := [
    { id := 1, balance := Decimal.ofParts 10000 2, currency := "USD" },
    { id := 2, balance := Decimal.ofParts (-550) 2, currency := "USD" }]
  ascending := by decide

/-- A visit that pays the debt, and one in which a second transfer lacks the funds. -/
def payThenOverdraw : List Visit :=
  let debt := Decimal.ofParts 55 1
  [{ access := .readWrite, statements := [.transfer ⟨1, 2, debt, "debt"⟩], closing := .commit },
    { access := .readWrite,
      statements := [.transfer ⟨1, 2, debt, "gift"⟩,
        .transfer ⟨2, 1, Decimal.ofParts 6 0, "back"⟩],
      closing := .commit }]

theorem creditAndDebt_conserved :
    Ledger.ofAccounts creditAndDebt.accounts = .ok creditAndDebt ∧
    (∀ a ∈ creditAndDebt.accounts, |a.balance.cents| < 2 ^ 96) ∧
    assets creditAndDebt.accounts < 2 ^ 96 ∧
    (∀ currency, totalIn currency (creditAndDebt.visitAll payThenOverdraw).2.accounts =
      totalIn currency creditAndDebt.accounts) ∧
    (∀ v currency,
      totalIn currency ((creditAndDebt.visitAll payThenOverdraw).2.openScope v).shown =
        totalIn currency creditAndDebt.accounts) ∧
    ∀ log ∈ (creditAndDebt.visitAll payThenOverdraw).1, ∀ o ∈ log.observations, ∀ operation id,
      o.fault? ≠ some (.overflow operation id) := by
  have hstart : Ledger.ofAccounts creditAndDebt.accounts = .ok creditAndDebt := by
    decide
  have hcredit : (Decimal.ofParts 10000 2).value = 100 := by
    rw [Decimal.value_ofParts (by norm_num) (by norm_num)]
    norm_num
  have hdebt : (Decimal.ofParts (-550) 2).value = -5.5 := by
    rw [Decimal.value_ofParts (by norm_num) (by norm_num)]
    norm_num
  have hfits : ∀ a ∈ creditAndDebt.accounts, |a.balance.cents| < 2 ^ 96 := by
    intro a ha
    simp only [creditAndDebt, List.mem_cons, List.not_mem_nil, or_false] at ha
    rcases ha with rfl | rfl
    · norm_num [Decimal.cents, hcredit]
    · norm_num [Decimal.cents, hdebt]
  have hassets : assets creditAndDebt.accounts < 2 ^ 96 := by
    norm_num [assets, Account.assets, creditAndDebt, Decimal.cents, hcredit, hdebt]
  exact ⟨hstart, hfits, hassets,
    total_conserved_and_never_overflows hstart hfits hassets payThenOverdraw⟩

end TransferDesk
