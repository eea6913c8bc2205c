import TransferDesk.Proofs.Decimal.Cents
import TransferDesk.Proofs.Decimal.Sum
import TransferDesk.Proofs.Scope.Shown
/-!
# How exactly a transfer moves its amount

A transfer takes its amount off one balance and puts it onto another. Whether the balances move by
exactly that amount is decided by whether some decimal stands for the exact new balance, for each
of the two by itself (`transfer_exact_iff_representable`). Near the limit of 96 bits none may do so,
and then the new balance is rounded and not refused: a cent can be lost on the way
(`cent_lost_at_the_limit`).
-/

namespace TransferDesk

/-- What is kept of an exact number: the number itself if some decimal stands for it, and no other
number that is further off than half a unit of its last place. -/
structure Decimal.Keeps (d : Decimal) (q : ℚ) : Prop where
  exact_iff : d.value = q ↔ Representable q
  near : |d.value - q| ≤ 1 / 2 / 10 ^ d.scale

/-- An amount that a transfer takes is a number of whole cents above zero. -/
theorem Settled.exists_cents {source target : Account} {amount : Decimal} {p : Posting}
    (h : Settled source target amount p) : ∃ n : ℕ, 0 < n ∧ amount.value = n / 100 := by
  obtain ⟨n, hn⟩ := Decimal.not_exceedsMoney_iff.1 h.money
  have hpos := Decimal.positive_iff_value_pos.1 h.positive
  have hcents : amount.value = n / 100 := by
    rw [← hn, Decimal.cents]
    ring
  rw [hcents] at hpos
  have hn0 : 0 < n := by
    have : (0 : ℚ) < n := by linarith
    exact_mod_cast this
  obtain ⟨k, rfl⟩ := Int.eq_ofNat_of_zero_le hn0.le
  refine ⟨k, by exact_mod_cast hn0, ?_⟩
  rw [hcents]
  simp

namespace Scope

/-- Both balances that a settled transfer comes to keep the exact ones. -/
theorem keeps_of_settled {source target : Account} {amount : Decimal} {p : Posting}
    (h : Settled source target amount p) :
    p.sourceBalance.Keeps (source.balance.value - amount.value) ∧
      p.targetBalance.Keeps (target.balance.value + amount.value) := by
  have hamount := Decimal.value_asMoney amount
  constructor
  · rw [← hamount]
    exact ⟨Decimal.value_sub?_eq_iff h.debit, Decimal.abs_value_sub?_sub_le h.debit⟩
  · rw [← hamount]
    exact ⟨Decimal.value_add?_eq_iff h.credit, Decimal.abs_value_add?_sub_le h.credit⟩

/-- Only a balance that no decimal stands for is refused for its size. -/
theorem not_representable_of_overflow {source target : Account} {amount : Decimal}
    {operation : String} {id : AccountId}
    (h : settle source target amount = .error (.overflow operation id)) :
    ¬ Decimal.Representable (source.balance.value - amount.value) ∨
      ¬ Decimal.Representable (target.balance.value + amount.value) := by
  obtain ⟨-, -, -, -, hnone⟩ := settle_eq_overflow h
  rw [← Decimal.value_asMoney amount]
  rcases hnone with ⟨-, -, hnone⟩ | ⟨-, -, hnone⟩
  · left
    intro hr
    obtain ⟨d, hd, -⟩ := Decimal.sub?_of_representable hr
    rw [hnone] at hd
    exact Option.some_ne_none d hd.symm
  · right
    intro hr
    obtain ⟨d, hd, -⟩ := Decimal.add?_of_representable hr
    rw [hnone] at hd
    exact Option.some_ne_none d hd.symm

/-- In whatever scope a transfer is answered, either balance moves by exactly the amount if and only
if some decimal stands for the exact new balance, and otherwise it is off by at most half a unit of
the last place it has left. A transfer that is refused for its size has a new balance that no
decimal stands for. -/
theorem transfer_exact_iff_representable (s : Scope) (order : TransferOrder) :
    (∀ after, s.run (.transfer order) = (.ok (), after) →
      ∃ source target source' target',
        s.view? order.source = some source ∧ after.view? order.source = some source' ∧
        s.view? order.target = some target ∧ after.view? order.target = some target' ∧
        source'.balance.Keeps (source.balance.value - order.amount.value) ∧
        target'.balance.Keeps (target.balance.value + order.amount.value)) ∧
    ∀ operation id, (s.run (.transfer order)).1 = .error (.overflow operation id) →
      ∃ source target, s.view? order.source = some source ∧ s.view? order.target = some target ∧
        (¬ Decimal.Representable (source.balance.value - order.amount.value) ∨
          ¬ Decimal.Representable (target.balance.value + order.amount.value)) := by
  constructor
  · intro after h
    obtain ⟨source, target, p, ht, rfl⟩ := run_transfer_eq_ok h
    obtain ⟨hdebit, hcredit⟩ := keeps_of_settled ht.settled
    refine ⟨source, target, { source with balance := p.sourceBalance },
      { target with balance := p.targetBalance }, ht.view_source, ?_, ht.view_target, ?_, hdebit,
      hcredit⟩
    · rw [view?_staging, ht.view_source, Option.map_some, ht.update_source]
    · rw [view?_staging, ht.view_target, Option.map_some, ht.update_target]
  · intro operation id h
    rcases run_transfer_eq_error (Prod.ext h rfl) with hfault | hstage
    · simp at hfault
    · obtain ⟨source, target, hs, ht, hsettle⟩ := stage_eq_overflow hstage
      exact ⟨source, target, hs, ht, not_representable_of_overflow hsettle⟩

/-- A ledger with an account that is one unit below the limit. -/
def nearLimit : Ledger where
  accounts := [
    { id := 1, balance := Decimal.ofParts 1000 2, currency := "USD" },
    { id := 2, balance := Decimal.ofParts (2 ^ 96 - 2) 0, currency := "USD" }]
  ascending := by decide

/-- One cent, from the small account to the large one. -/
def oneCent : TransferOrder where
  source := 1
  target := 2
  amount := Decimal.ofParts 1 2
  description := "cent"

/-- The cent is taken off the one balance and never reaches the other: no decimal stands for the
sum, and the transfer is made all the same. -/
theorem cent_lost_at_the_limit :
    Ledger.ofAccounts nearLimit.accounts = .ok nearLimit ∧
    ((begin nearLimit .readWrite).run (.transfer oneCent)).1 = .ok () ∧
    ∃ source target source' target',
      (begin nearLimit .readWrite).view? 1 = some source ∧
      ((begin nearLimit .readWrite).run (.transfer oneCent)).2.view? 1 = some source' ∧
      (begin nearLimit .readWrite).view? 2 = some target ∧
      ((begin nearLimit .readWrite).run (.transfer oneCent)).2.view? 2 = some target' ∧
      source'.balance.value = source.balance.value - 1 / 100 ∧
      target'.balance.value = target.balance.value ∧
      ¬ Decimal.Representable (target.balance.value + 1 / 100) := by
  have hstart : Ledger.ofAccounts nearLimit.accounts = .ok nearLimit := by
    decide +kernel
  have hok : ((begin nearLimit .readWrite).run (.transfer oneCent)).1 = .ok () := by
    decide +kernel
  have hcent : oneCent.amount.value = 1 / 100 := by
    rw [show oneCent.amount = Decimal.ofParts 1 2 from rfl,
      Decimal.value_ofParts (by norm_num) (by norm_num)]
    norm_num
  have hrun : (begin nearLimit .readWrite).run (.transfer oneCent) =
      (.ok (), ((begin nearLimit .readWrite).run (.transfer oneCent)).2) :=
    Prod.ext hok rfl
  obtain ⟨source, target, source', target', hs, hs', ht, ht', hdebit, hcredit⟩ :=
    (transfer_exact_iff_representable (begin nearLimit .readWrite) oneCent).1 _ hrun
  rw [hcent] at hdebit hcredit
  have hbefore : ((begin nearLimit .readWrite).view? 1).map Account.balance =
      some (Decimal.ofParts 1000 2) := by
    decide +kernel
  have hsame : (((begin nearLimit .readWrite).run (.transfer oneCent)).2.view? 2).map
      Account.balance = ((begin nearLimit .readWrite).view? 2).map Account.balance := by
    decide +kernel
  have hsource : source.balance.value = 10 := by
    rw [show (1 : AccountId) = oneCent.source from rfl, hs, Option.map_some] at hbefore
    rw [Option.some.inj hbefore, Decimal.value_ofParts (by norm_num) (by norm_num)]
    norm_num
  have htarget : target'.balance.value = target.balance.value := by
    rw [show (2 : AccountId) = oneCent.target from rfl, ht, ht', Option.map_some,
      Option.map_some] at hsame
    rw [Option.some.inj hsame]
  have hrepr : Decimal.Representable (source.balance.value - 1 / 100) := by
    refine ⟨Decimal.ofParts 999 2, ?_⟩
    rw [hsource, Decimal.value_ofParts (by norm_num) (by norm_num)]
    norm_num
  -- were there a decimal for the sum, the target's balance would have moved
  refine ⟨hstart, hok, source, target, source', target', hs, hs', ht, ht',
    hdebit.exact_iff.2 hrepr, htarget, ?_⟩
  intro hr
  have hmoved := hcredit.exact_iff.2 hr
  rw [htarget] at hmoved
  linarith

end Scope

end TransferDesk
