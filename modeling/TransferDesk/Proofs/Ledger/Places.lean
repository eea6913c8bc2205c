import TransferDesk.Proofs.Commuting
import TransferDesk.Proofs.Conservation
import TransferDesk.Proofs.Decimal.Canonical
import TransferDesk.Proofs.Replay
/-!
# The places of balances

Money has two places, and 96 bits hold both of them as long as the cents can be counted in 96 bits.
Larger amounts are kept with fewer places, and nobody is told. So a balance does not always have its
two places: an account can begin without them, and a transfer can take them away
(`brimful_loses_a_place`) or give them back.

When a transfer leaves both places is known for each of its two balances
(`Settled.scale_eq_two_iff`). Along a history this says of every balance whether it has them, from
the balances at the start and the amounts alone (`Balances.BothPlaces`,
`keptByTransfers_keptPlaces`).
-/

namespace TransferDesk

open Scope (KeptByTransfers)

/-! ## One transfer -/

namespace Decimal

/-- A sum has both places if one of the numbers has them, and the cents of the exact sum can be
counted. -/
theorem scale_add?_eq_two_iff {a b d : Decimal} (h : a.add? b = some d) (ha : a.scale ≤ 2)
    (hb : b.scale ≤ 2) (hne : b.magnitude ≠ 0) (hfull : b.scale = 2 ↔ |b.cents| < 2 ^ 96) :
    d.scale = 2 ↔ (a.scale = 2 ∨ b.scale = 2) ∧ |a.cents + b.cents| < 2 ^ 96 := by
  unfold add? at h
  by_cases hzero : a.magnitude = 0
  · -- the sum with a zero is the other number as it stands
    rw [if_pos hzero] at h
    obtain rfl := Option.some.inj h
    have hcents : a.cents = 0 := by
      rw [cents, magnitude_eq_zero_iff.1 hzero, mul_zero]
    rw [hcents, zero_add, ← hfull]
    tauto
  · rw [if_neg hzero, if_neg hne] at h
    constructor
    · intro hscale
      -- a scale that is kept is the larger of the two, and then the sum is exact
      have hmax : max a.scale b.scale = 2 :=
        le_antisymm (max_le ha hb) (hscale ▸ scale_fit?_le h)
      have hcoeff := coeff_of_fit? h (hscale.trans hmax.symm)
      have hsum : a.cents + b.cents = d.cents := by
        rw [cents, cents, ← mul_add, value_add_value, ← hcoeff, hmax, ← hscale]
        rfl
      refine ⟨by omega, ?_⟩
      rw [hsum, cents_eq_coeff hscale]
      exact_mod_cast abs_coeff_lt d
    · rintro ⟨hone, hfits⟩
      have hmax : max a.scale b.scale = 2 := by omega
      rw [hmax] at h
      simp only at h
      have hcents : a.cents + b.cents = (a.coeffAt 2 + b.coeffAt 2 : ℤ) := by
        rw [cents_of_scale_le ha, cents_of_scale_le hb]
        exact (Int.cast_add _ _).symm
      rw [hcents] at hfits
      obtain ⟨e, he, -, hscale⟩ := ofParts?_of_lt (by exact_mod_cast hfits) (show 2 ≤ 28 by decide)
      rw [fit?_succ, roundMagnitude_one, he] at h
      rw [← Option.some.inj h, hscale]

theorem scale_sub?_eq_two_iff {a b d : Decimal} (h : a.sub? b = some d) (ha : a.scale ≤ 2)
    (hb : b.scale ≤ 2) (hne : b.magnitude ≠ 0) (hfull : b.scale = 2 ↔ |b.cents| < 2 ^ 96) :
    d.scale = 2 ↔ (a.scale = 2 ∨ b.scale = 2) ∧ |a.cents - b.cents| < 2 ^ 96 := by
  rw [← scale_negate] at hb
  rw [← magnitude_negate] at hne
  rw [← scale_negate, ← abs_neg, ← cents_negate] at hfull
  have hsum := scale_add?_eq_two_iff h ha hb hne hfull
  rwa [cents_negate, scale_negate, ← sub_eq_add_neg] at hsum

end Decimal

/-- A transfer leaves both places at an account if the balance before or the amount has them, and
the cents of the exact difference or sum can be counted. -/
theorem Settled.scale_eq_two_iff {source target : Account} {amount : Decimal} {p : Posting}
    (h : Settled source target amount p) (hsource : source.balance.scale ≤ 2)
    (htarget : target.balance.scale ≤ 2) :
    (p.sourceBalance.scale = 2 ↔ (source.balance.scale = 2 ∨ |p.amount.cents| < 2 ^ 96) ∧
      |source.balance.cents - p.amount.cents| < 2 ^ 96) ∧
    (p.targetBalance.scale = 2 ↔ (target.balance.scale = 2 ∨ |p.amount.cents| < 2 ^ 96) ∧
      |target.balance.cents + p.amount.cents| < 2 ^ 96) := by
  have hplaces := Decimal.scale_asMoney_le h.money
  have hfull := Decimal.scale_asMoney_iff h.money
  have hne : amount.asMoney.magnitude ≠ 0 := by
    rw [Ne, Decimal.magnitude_eq_zero_iff, Decimal.value_asMoney]
    exact (Decimal.positive_iff_value_pos.1 h.positive).ne'
  rw [← Decimal.cents_asMoney] at hfull
  rw [h.booked, ← hfull]
  exact ⟨Decimal.scale_sub?_eq_two_iff h.debit hsource hplaces hne hfull,
    Decimal.scale_add?_eq_two_iff h.credit htarget hplaces hne hfull⟩

/-! ## Histories -/

namespace Balances

/-- The balance of an account has both its places after some transfers, the newest in front. It
begins with them if its cents can be counted in 96 bits. A transfer from or to the account leaves
them if the balance before or the amount has them, and the cents of the exact new balance can be
counted. Other transfers leave it alone. -/
def BothPlaces (start : Balances) (id : AccountId) : List TransferOrder → Prop
  | [] => ∃ balance, start id = some balance ∧ |balance.cents| < 2 ^ 96
  | order :: earlier =>
    if order.Names id then
      (start.BothPlaces id earlier ∨ |order.amount.cents| < 2 ^ 96) ∧
      ∃ table balance, start.replay? earlier.reverse = some table ∧ table id = some balance ∧
        |balance.cents - order.debit id + order.credit id| < 2 ^ 96
    else start.BothPlaces id earlier

variable {start table : Balances} {id : AccountId} {order : TransferOrder}
    {earlier : List TransferOrder}

theorem bothPlaces_cons_of_names {balance : Decimal} (hnames : order.Names id)
    (htable : start.replay? earlier.reverse = some table) (hbalance : table id = some balance) :
    start.BothPlaces id (order :: earlier) ↔
      (start.BothPlaces id earlier ∨ |order.amount.cents| < 2 ^ 96) ∧
        |balance.cents - order.debit id + order.credit id| < 2 ^ 96 := by
  rw [BothPlaces, if_pos hnames]
  constructor
  · rintro ⟨hplaces, table', balance', htable', hbalance', hfits⟩
    rw [htable] at htable'
    obtain rfl := Option.some.inj htable'
    rw [hbalance] at hbalance'
    obtain rfl := Option.some.inj hbalance'
    exact ⟨hplaces, hfits⟩
  · rintro ⟨hplaces, hfits⟩
    exact ⟨hplaces, table, balance, htable, hbalance, hfits⟩

theorem bothPlaces_cons_of_not_names (hnames : ¬ order.Names id) :
    start.BothPlaces id (order :: earlier) ↔ start.BothPlaces id earlier := by
  rw [BothPlaces, if_neg hnames]

end Balances

/-- The places of the balances and of the amounts are those that the history says. -/
structure KeptPlaces (start : Balances) (accounts : List Account) (history : List TransferOrder) :
    Prop where
  replayed : Explains start history (balancesOf accounts)
  balances : ∀ a ∈ accounts, a.balance.scale ≤ 2 ∧
    (a.balance.scale = 2 ↔ start.BothPlaces a.id history.reverse)
  amounts : ∀ order ∈ history, order.amount.scale ≤ 2 ∧
    (order.amount.scale = 2 ↔ |order.amount.cents| < 2 ^ 96)

section Takes

variable {start : Balances} {s : Scope} {order : TransferOrder} {source target : Account}
    {p : Posting}

/-- The amount of a transfer that is taken has the places of money. -/
theorem Scope.Takes.places_amount (ht : s.Takes order source target p) :
    p.amount.scale ≤ 2 ∧ (p.amount.scale = 2 ↔ |p.amount.cents| < 2 ^ 96) := by
  have hmoney := ht.settled.money
  rw [ht.settled.booked, Decimal.cents_asMoney]
  exact ⟨Decimal.scale_asMoney_le hmoney, Decimal.scale_asMoney_iff hmoney⟩

/-- The two balances after a transfer have the places that the history says with that transfer in
front. -/
theorem KeptPlaces.places_parties (h : KeptPlaces start s.shown s.history)
    (ht : s.Takes order source target p) :
    (p.sourceBalance.scale = 2 ↔
      start.BothPlaces order.source (p.order order :: s.history.reverse)) ∧
    (p.targetBalance.scale = 2 ↔
      start.BothPlaces order.target (p.order order :: s.history.reverse)) := by
  have hreplayed : start.replay? s.history.reverse.reverse = some (balancesOf s.shown) := by
    rw [List.reverse_reverse]
    exact h.replayed.replayed
  obtain ⟨hsourceLe, hsource⟩ := h.balances source ht.source_mem
  obtain ⟨htargetLe, htarget⟩ := h.balances target ht.target_mem
  rw [ht.source_id] at hsource
  rw [ht.target_id] at htarget
  have hdistinct := ht.order_distinct
  obtain ⟨hdebit, hcredit⟩ := ht.settled.scale_eq_two_iff hsourceLe htargetLe
  have hnamesSource : (p.order order).Names order.source := Or.inl rfl
  have hnamesTarget : (p.order order).Names order.target := Or.inr rfl
  constructor
  · rw [Balances.bothPlaces_cons_of_names hnamesSource hreplayed ht.balancesOf_source, hdebit,
      ← hsource]
    have hshare : source.balance.cents - (p.order order).debit order.source +
        (p.order order).credit order.source = source.balance.cents - p.amount.cents := by
      unfold TransferOrder.debit TransferOrder.credit Posting.order
      rw [if_pos rfl, if_neg hdistinct.symm, add_zero]
    rw [hshare]
    rfl
  · rw [Balances.bothPlaces_cons_of_names hnamesTarget hreplayed ht.balancesOf_target, hcredit,
      ← htarget]
    have hshare : target.balance.cents - (p.order order).debit order.target +
        (p.order order).credit order.target = target.balance.cents + p.amount.cents := by
      unfold TransferOrder.debit TransferOrder.credit Posting.order
      rw [if_neg hdistinct, if_pos rfl, sub_zero]
    rw [hshare]
    rfl

end Takes

theorem keptByTransfers_keptPlaces (start : Balances) : KeptByTransfers (KeptPlaces start) := by
  intro s order source target p ht h
  obtain ⟨hsource, htarget⟩ := h.places_parties ht
  obtain ⟨hsourceLe, htargetLe⟩ := ht.settled.scale_le (h.balances _ ht.source_mem).1
    (h.balances _ ht.target_mem).1
  refine ⟨h.replayed.concat ht, ?_, ?_⟩
  · intro a ha
    obtain ⟨b, hb, rfl⟩ := List.mem_map.1 ha
    rw [List.reverse_append, List.reverse_singleton, List.singleton_append]
    unfold Posting.update
    split
    · rename_i hid
      change p.targetBalance.scale ≤ 2 ∧ (p.targetBalance.scale = 2 ↔ start.BothPlaces b.id _)
      rw [hid]
      exact ⟨htargetLe, htarget⟩
    · rename_i hnotTarget
      split
      · rename_i hid
        change p.sourceBalance.scale ≤ 2 ∧ (p.sourceBalance.scale = 2 ↔ start.BothPlaces b.id _)
        rw [hid]
        exact ⟨hsourceLe, hsource⟩
      · rename_i hnotSource
        have hnames : ¬ (p.order order).Names b.id := not_or.2 ⟨hnotSource, hnotTarget⟩
        rw [Balances.bothPlaces_cons_of_not_names hnames]
        exact h.balances b hb
  · intro booked hbooked
    rcases List.mem_append.1 hbooked with hold | hnew
    · exact h.amounts booked hold
    · obtain rfl := List.mem_singleton.1 hnew
      exact ht.places_amount

/-- At the start all places are those that the balances have by themselves. -/
theorem KeptPlaces.of_ofAccounts {accounts : List Account} {start : Ledger}
    (hstart : Ledger.ofAccounts accounts = .ok start) :
    KeptPlaces (balancesOf start.accounts) start.accounts start.history := by
  rw [Ledger.history_of_ofAccounts hstart]
  refine ⟨Explains.nil _, ?_, ?_⟩
  · intro a ha
    have hfind : balancesOf start.accounts a.id = some a.balance := by
      rw [balancesOf_accounts, Ledger.find?_eq_some_iff.2 ⟨ha, rfl⟩, Option.map_some]
    obtain ⟨b, -, hmoney, rfl⟩ := (Ledger.ofAccounts_eq_ok hstart).1 a ha
    refine ⟨Decimal.scale_asMoney_le hmoney, ?_⟩
    change b.balance.asMoney.scale = 2 ↔
      ∃ balance, balancesOf start.accounts b.id = some balance ∧ _
    rw [Decimal.scale_asMoney_iff hmoney, ← Decimal.cents_asMoney]
    constructor
    · intro hfits
      exact ⟨_, hfind, hfits⟩
    · rintro ⟨balance, hbalance, hfits⟩
      obtain rfl := Option.some.inj (hfind.symm.trans hbalance)
      exact hfits
  · intro order horder
    cases horder

/-- Money that can be counted in cents has its two places, and so has every amount that is moved. -/
theorem keptByTransfers_atCents :
    KeptByTransfers fun accounts history =>
      AtCents accounts ∧ ∀ order ∈ history, order.amount.scale = 2 := by
  rintro s order source target p ht ⟨hinv, hamounts⟩
  refine ⟨hinv.update ht, ?_⟩
  intro booked hbooked
  rcases List.mem_append.1 hbooked with hold | hnew
  · exact hamounts booked hold
  · obtain rfl := List.mem_singleton.1 hnew
    -- the amount is no more than a balance that has two places
    obtain ⟨hpositive, hcover, -⟩ := hinv.moved ht
    have hscale := hinv.scale source ht.source_mem
    have hcoeff := Decimal.abs_coeff_lt source.balance
    have hfits : |order.amount.cents| < 2 ^ 96 := by
      have hsource : |source.balance.cents| < 2 ^ 96 := by
        rw [Decimal.cents_eq_coeff hscale]
        exact_mod_cast hcoeff
      rw [abs_of_pos hpositive]
      exact lt_of_le_of_lt (hcover.trans (le_abs_self _)) hsource
    change p.amount.scale = 2
    rw [ht.settled.booked]
    exact Decimal.scale_asMoney ht.settled.money hfits

/-! ## Visits -/

/-- Take a ledger that was built from accounts, and whatever visits are made to it.

* No balance has more than two places, and it has both of them if and only if the history says so.
* No amount in the journal has more than two places, and it has both of them if and only if its
  cents can be counted in 96 bits.
* If all balances at the start, and the positive ones together, can be counted in cents within 96
  bits, every balance and every amount in the journal has exactly two places. -/
theorem two_places_iff_counted {accounts : List Account} {start : Ledger}
    (hstart : Ledger.ofAccounts accounts = .ok start) (visits : List Visit) :
    (∀ a ∈ (start.visitAll visits).2.accounts, a.balance.scale ≤ 2 ∧
      (a.balance.scale = 2 ↔
        (balancesOf start.accounts).BothPlaces a.id (start.visitAll visits).2.history.reverse)) ∧
    (∀ entry ∈ (start.visitAll visits).2.journal, entry.order.amount.scale ≤ 2 ∧
      (entry.order.amount.scale = 2 ↔ |entry.order.amount.cents| < 2 ^ 96)) ∧
    ((∀ a ∈ start.accounts, |a.balance.cents| < 2 ^ 96) → assets start.accounts < 2 ^ 96 →
      (∀ a ∈ (start.visitAll visits).2.accounts, a.balance.scale = 2) ∧
      ∀ entry ∈ (start.visitAll visits).2.journal, entry.order.amount.scale = 2) := by
  have hplaces := (keptByTransfers_keptPlaces _).visitAll (KeptPlaces.of_ofAccounts hstart) visits
  refine ⟨hplaces.balances, ?_, ?_⟩
  · intro entry hentry
    exact hplaces.amounts entry.order (List.mem_map_of_mem hentry)
  · intro hfits hassets
    have hnew : ∀ order ∈ start.history, order.amount.scale = 2 := by
      rw [Ledger.history_of_ofAccounts hstart]
      intro order horder
      cases horder
    obtain ⟨hinv, hamounts⟩ := keptByTransfers_atCents.visitAll
      ⟨AtCents.of_ofAccounts hstart hfits hassets, hnew⟩ visits
    refine ⟨hinv.scale, ?_⟩
    intro entry hentry
    exact hamounts entry.order (List.mem_map_of_mem hentry)

/-- A ledger with an account to which no cent can be added with two places. -/
def brimful : Ledger where
  accounts := [
    { id := 1, balance := Decimal.ofParts 1000 2, currency := "USD" },
    { id := 2, balance := Decimal.ofParts (2 ^ 96 - 1) 2, currency := "USD" }]
  ascending := by decide

/-- A visit in which that cent is added. -/
def lastCent : List Visit :=
  [{ access := .readWrite
     statements := [.transfer ⟨1, 2, Decimal.ofParts 1 2, "cent"⟩]
     closing := .commit }]

/-- The transfer is made and one place is lost, although every balance had two and the amount has
two. -/
theorem brimful_loses_a_place :
    Ledger.ofAccounts brimful.accounts = .ok brimful ∧
    (brimful.visitAll lastCent).2.accounts.map Account.balance =
      [Decimal.ofParts 999 2, Decimal.ofParts 7922816251426433759354395034 1] ∧
    (brimful.visitAll lastCent).2.history.map TransferOrder.amount = [Decimal.ofParts 1 2] ∧
    (balancesOf brimful.accounts).BothPlaces 1 (brimful.visitAll lastCent).2.history.reverse ∧
    (balancesOf brimful.accounts).BothPlaces 2 [] ∧
    ¬ (balancesOf brimful.accounts).BothPlaces 2 (brimful.visitAll lastCent).2.history.reverse := by
  have hstart : Ledger.ofAccounts brimful.accounts = .ok brimful := by
    decide +kernel
  have hscales : (brimful.visitAll lastCent).2.accounts.map (fun a => (a.id, a.balance.scale)) =
      [(1, 2), (2, 1)] := by
    decide +kernel
  have hscale {id : AccountId} {scale : ℕ} (h : (id, scale) ∈ [((1 : AccountId), 2), (2, 1)]) :
      scale = 2 ↔ (balancesOf brimful.accounts).BothPlaces id
        (brimful.visitAll lastCent).2.history.reverse := by
    rw [← hscales] at h
    obtain ⟨a, ha, heq⟩ := List.mem_map.1 h
    obtain ⟨rfl, rfl⟩ := Prod.mk.inj heq
    exact ((two_places_iff_counted hstart lastCent).1 a ha).2
  have hbefore : (balancesOf brimful.accounts).BothPlaces 2 [] := by
    have hcents : (Decimal.ofParts (2 ^ 96 - 1) 2).scale = 2 := by decide +kernel
    refine ⟨Decimal.ofParts (2 ^ 96 - 1) 2, rfl, ?_⟩
    rw [Decimal.cents_eq_coeff hcents]
    exact_mod_cast Decimal.abs_coeff_lt _
  refine ⟨hstart, by decide +kernel, by decide +kernel, (hscale (by decide)).1 rfl, hbefore, ?_⟩
  intro hafter
  have hone : ((2 : AccountId), 1) ∈ [((1 : AccountId), 2), (2, 1)] := by decide
  exact absurd ((hscale hone).2 hafter) (by decide)

end TransferDesk
