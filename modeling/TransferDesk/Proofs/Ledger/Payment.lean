import TransferDesk.Proofs.Bookkeeping
import TransferDesk.Proofs.Desk.Inquiries
/-!
# Payments

An order between two accounts of a ledger that breaks no rule but perhaps the one about funds
(`TransferOrder.Between`) is a payment. Whether it is made depends on the funds alone. If the
balance of the source covers the amount, the payment is made, and both new balances are exact, to
the last place (`Between.transfer_covered`). If it does not, the payment is refused for want of
funds and the ledger stays as it is (`Between.transfer_uncovered`).
-/

namespace TransferDesk

/-! ## Transfers by what a scope makes of them -/

/-- A scope refuses a transfer with what the transfer breaks. -/
theorem Scope.stage_of_refused {s : Scope} {order : TransferOrder} {source target : Account}
    {fault : Fault} (hwrites : s.access = .readWrite) (hsource : s.view? order.source = some source)
    (htarget : s.view? order.target = some target)
    (hrefused : settle source target order.amount = .error fault) :
    s.stage order = .error fault := by
  unfold stage
  rw [if_neg (by rw [hwrites]; decide), hsource, htarget]
  simp only
  rw [hrefused]

namespace Ledger

variable {l : Ledger} {order : TransferOrder}

/-- A transfer that a new scope takes is made. -/
theorem transfer_of_takes {source target : Account} {p : Posting}
    (ht : (Scope.begin l .readWrite).Takes order source target p) :
    ∃ after, l.transfer order = (.ok (), after) ∧ l.Made order source target p after := by
  have hstage := Scope.stage_eq_ok_iff.2 ⟨source, target, p, ht, rfl⟩
  have hrun := Scope.run_transfer_of_ok (s := Scope.begin l .readWrite) rfl hstage
  refine ⟨((Scope.begin l .readWrite).staging order p).posted, ?_, ht, ?_, rfl, rfl⟩
  · unfold transfer
    rw [execute_ask_of_ok hrun rfl]
  · change ((Scope.begin l .readWrite).staging order p).shown = _
    rw [Scope.shown_staging, Scope.shown_begin]

/-- A transfer that a new scope refuses changes nothing. -/
theorem transfer_of_refused {fault : Fault}
    (hstage : (Scope.begin l .readWrite).stage order = .error fault) :
    l.transfer order = (.error (.transferFailed fault), l) := by
  have hrun := Scope.run_transfer_of_error (s := Scope.begin l .readWrite) rfl hstage
  unfold transfer
  rw [execute_ask_of_error (congrArg Prod.fst hrun)]

/-- A new scope shows the accounts of its ledger. -/
theorem view?_begin (l : Ledger) (access : Access) (id : AccountId) :
    (Scope.begin l access).view? id = l.find? id :=
  Option.map_id_apply

end Ledger

section Made

variable {l after : Ledger} {order : TransferOrder} {source target : Account} {p : Posting}

/-- After a transfer an account is found with its new balance. -/
theorem Ledger.Made.find_update (h : l.Made order source target p after) {id : AccountId}
    {a : Account} (ha : l.find? id = some a) : after.find? id = some (p.update order a) := by
  obtain ⟨hmem, hid⟩ := Ledger.find?_eq_some_iff.1 ha
  obtain ⟨balance, hupdate, -⟩ := p.exists_balance order
  rw [Ledger.find?_eq_some_iff, h.accounts]
  refine ⟨List.mem_map_of_mem hmem, ?_⟩
  rw [hupdate]
  exact hid

theorem Ledger.Made.find_source (h : l.Made order source target p after) :
    after.find? order.source = some { source with balance := p.sourceBalance } := by
  have hsource := h.takes.view_source
  rw [Ledger.view?_begin] at hsource
  rw [h.find_update hsource, h.takes.update_source]

theorem Ledger.Made.find_target (h : l.Made order source target p after) :
    after.find? order.target = some { target with balance := p.targetBalance } := by
  have htarget := h.takes.view_target
  rw [Ledger.view?_begin] at htarget
  rw [h.find_update htarget, h.takes.update_target]

end Made

/-! ## Payments -/

/-- An order for `n` cents, which are more than none, between two different accounts of a ledger
that have one currency. -/
structure TransferOrder.Between (order : TransferOrder) (l : Ledger) (source target : Account)
    (n : ℕ) : Prop where
  findSource : l.find? order.source = some source
  findTarget : l.find? order.target = some target
  distinct : order.source ≠ order.target
  currency : source.currency = target.currency
  pos : 0 < n
  cents : order.amount.cents = n

/-- A payment of `n` cents leaves both balances at two places, the one less by the amount and the
other one more by it. -/
structure Posting.Pays (p : Posting) (source target : Account) (n : ℕ) : Prop where
  sourcePlaces : p.sourceBalance.InCents
  targetPlaces : p.targetBalance.InCents
  debit : p.sourceBalance.cents = source.balance.cents - n
  credit : p.targetBalance.cents = target.balance.cents + n

theorem TransferOrder.Booked.between {order : TransferOrder} {l : Ledger}
    (h : order.Booked l.accounts) : ∃ source target n, order.Between l source target n := by
  obtain ⟨source, hsource, target, htarget, hfrom, hto, hcurrency⟩ := h.parties
  obtain ⟨n, hpos, hn⟩ := h.cents
  refine ⟨source, target, n, ?_, ?_, h.distinct, hcurrency, hpos, ?_⟩
  · exact Ledger.find?_eq_some_iff.2 ⟨hsource, hfrom⟩
  · exact Ledger.find?_eq_some_iff.2 ⟨htarget, hto⟩
  · rw [Decimal.cents, hn]
    ring

namespace TransferOrder.Between

variable {l : Ledger} {order : TransferOrder} {source target : Account} {n : ℕ}

theorem positive (h : order.Between l source target n) : order.amount.Positive := by
  have hpos : (0 : ℚ) < n := by exact_mod_cast h.pos
  rw [← h.cents, Decimal.cents] at hpos
  rw [Decimal.positive_iff_value_pos]
  linarith

theorem money (h : order.Between l source target n) : ¬ order.amount.ExceedsMoney :=
  Decimal.not_exceedsMoney_iff.2 ⟨n, by rw [h.cents]; rfl⟩

theorem ids_distinct (h : order.Between l source target n) : source.id ≠ target.id := by
  rw [(Ledger.find?_eq_some_iff.1 h.findSource).2, (Ledger.find?_eq_some_iff.1 h.findTarget).2]
  exact h.distinct

theorem funds_iff (h : order.Between l source target n) :
    source.balance < order.amount.asMoney ↔ source.balance.cents < n := by
  rw [Decimal.lt_asMoney_iff, ← h.cents, Decimal.cents, Decimal.cents]
  constructor <;> intro hless <;> linarith

/-- A payment that the source covers, between balances that fit in cents, meets all the rules. -/
theorem exists_settled (h : order.Between l source target n) (hplaces : TwoPlaces l.accounts)
    (hcovered : n ≤ source.balance.cents) (hsource : |source.balance.cents| < 2 ^ 96)
    (htarget : |target.balance.cents + n| < 2 ^ 96) :
    ∃ p, Settled source target order.amount p ∧ p.Pays source target n := by
  have hn : (0 : ℚ) < n := by exact_mod_cast h.pos
  have hfits : |order.amount.cents| < 2 ^ 96 := by
    rw [h.cents, abs_of_pos hn]
    rw [abs_of_nonneg (by linarith)] at hsource
    linarith
  -- the amount is booked with two places and is not zero, so that what it is added to gets two
  -- places
  have hscale : order.amount.asMoney.scale = 2 := Decimal.scale_asMoney h.money hfits
  have hcents : order.amount.asMoney.cents = n := by
    rw [Decimal.cents_asMoney, h.cents]
  have hne : order.amount.asMoney.magnitude ≠ 0 := by
    intro hzero
    rw [Decimal.cents, Decimal.magnitude_eq_zero_iff.1 hzero, mul_zero] at hcents
    linarith
  have hdebit : |source.balance.cents - order.amount.asMoney.cents| < 2 ^ 96 := by
    rw [abs_of_nonneg (by linarith)] at hsource
    rw [hcents, abs_of_nonneg (by linarith)]
    linarith
  rw [← hcents] at htarget
  have hsourcePlaces := hplaces source (Ledger.find?_eq_some_iff.1 h.findSource).1
  have htargetPlaces := hplaces target (Ledger.find?_eq_some_iff.1 h.findTarget).1
  obtain ⟨sb, hsb, hsbPlaces, hsbCents⟩ :=
    Decimal.exists_sub?_inCents hsourcePlaces hscale hne hdebit
  obtain ⟨tb, htb, htbPlaces, htbCents⟩ :=
    Decimal.exists_add?_inCents htargetPlaces hscale hne htarget
  rw [hcents] at hsbCents htbCents
  refine ⟨⟨order.amount.asMoney, sb, tb⟩, ?_, hsbPlaces, htbPlaces, hsbCents, htbCents⟩
  refine ⟨h.positive, h.money, h.ids_distinct, h.currency, ?_, rfl, hsb, htb⟩
  rw [h.funds_iff, not_lt]
  exact hcovered

/-- A payment that the source covers is made exactly. -/
theorem transfer_covered (h : order.Between l source target n) (hplaces : TwoPlaces l.accounts)
    (hcovered : n ≤ source.balance.cents) (hsource : |source.balance.cents| < 2 ^ 96)
    (htarget : |target.balance.cents + n| < 2 ^ 96) :
    ∃ p after, l.transfer order = (.ok (), after) ∧ l.Made order source target p after ∧
      p.Pays source target n := by
  obtain ⟨p, hsettled, hpays⟩ := h.exists_settled hplaces hcovered hsource htarget
  have ht : (Scope.begin l .readWrite).Takes order source target p := by
    refine ⟨rfl, ?_, ?_, hsettled⟩
    · rw [Ledger.view?_begin, h.findSource]
    · rw [Ledger.view?_begin, h.findTarget]
  obtain ⟨after, htransfer, hmade⟩ := Ledger.transfer_of_takes ht
  exact ⟨p, after, htransfer, hmade, hpays⟩

/-- A payment that the source does not cover is refused for want of funds. -/
theorem transfer_uncovered (h : order.Between l source target n)
    (hfunds : source.balance.cents < n) :
    l.transfer order = (.error (.transferFailed
      (.insufficientFunds order.source source.balance order.amount.asMoney)), l) := by
  -- everything else is in order, so the funds decide
  have hcheck : checkAmount order.amount = .ok order.amount.asMoney :=
    checkAmount_eq_ok_iff.2 ⟨h.positive, h.money, rfl⟩
  have hsettle : settle source target order.amount =
      .error (.insufficientFunds source.id source.balance order.amount.asMoney) := by
    unfold settle
    rw [hcheck]
    simp only
    unfold book
    rw [if_neg h.ids_distinct, if_neg (not_not_intro h.currency), if_pos (h.funds_iff.2 hfunds)]
  rw [(Ledger.find?_eq_some_iff.1 h.findSource).2] at hsettle
  apply Ledger.transfer_of_refused
  apply Scope.stage_of_refused rfl _ _ hsettle
  · rw [Ledger.view?_begin, h.findSource]
  · rw [Ledger.view?_begin, h.findTarget]

end TransferOrder.Between

end TransferDesk
