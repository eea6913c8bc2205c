import Mathlib.Data.Rat.Floor
import TransferDesk.Proofs.Desk.Omissions
import TransferDesk.Proofs.Ledger.Payment
/-!
# Withdrawals one after the other

The same amount is asked for again and again, from one account to another, and in between are
requests that are no transfers. How many of the withdrawals are granted depends on the funds that
there are in the beginning and on nothing else: as many as the amount is contained in the funds, if
so many come, and always the first.

`Ledger.Withdrawn` is what holds after each request. It counts the withdrawals that were granted,
and with them both balances are known. `Withdrawn.grant` and `Withdrawn.refuse` are the two ways in
which one more withdrawal can end, and `Desk.granted_answerAll` is the count after any number of
requests.
-/

namespace TransferDesk

/-- The order of a request for a transfer. -/
def orderOf? : Except Malformed Request → Option TransferOrder
  | .ok (.transfer order) => some order
  | _ => none

theorem orderOf?_eq_some_iff {request : Except Malformed Request} {order : TransferOrder} :
    orderOf? request = some order ↔ request = .ok (.transfer order) := by
  constructor
  · intro h
    unfold orderOf? at h
    split at h
    · rw [Option.some.inj h]
    · simp at h
  · rintro rfl
    rfl

/-- How many requests are for transfers. -/
def transfers (requests : List (Except Malformed Request)) : ℕ :=
  requests.countP fun request => (orderOf? request).isSome

/-- How many responses grant a transfer. -/
def granted (responses : List Response) : ℕ :=
  responses.count .ok

/-- An order for an amount from one account to another. -/
structure TransferOrder.Withdraws (order : TransferOrder) (x y : Account) (amount : ℚ) : Prop where
  source : order.source = x.id
  target : order.target = y.id
  amount : order.amount.value = amount

/-- Two accounts of a ledger with one currency, and an amount of whole cents above zero to be
withdrawn from the first of them to the second. The first one has no debt. Both balances, and both
together, fit in 96 bits, counted in cents. -/
structure Ledger.Competition (l : Ledger) (x y : Account) (amount : ℚ) : Prop where
  source : x ∈ l.accounts
  target : y ∈ l.accounts
  distinct : x.id ≠ y.id
  currency : x.currency = y.currency
  cents : ∃ n : ℕ, 0 < n ∧ amount = n / 100
  funds : 0 ≤ x.balance.value
  fitsSource : |x.balance.cents| < 2 ^ 96
  fitsTarget : |y.balance.cents| < 2 ^ 96
  fitsBoth : |y.balance.cents + x.balance.cents| < 2 ^ 96

/-- How many times an amount is contained in the balance of an account. -/
def Account.capacity (x : Account) (amount : ℚ) : ℕ :=
  ⌊x.balance.value / amount⌋₊

/-- The ledger after `k` withdrawals. -/
structure Ledger.Withdrawn (l : Ledger) (x y : Account) (amount : ℚ) (k : ℕ) : Prop where
  places : TwoPlaces l.accounts
  source : ∃ balance, l.find? x.id = some { x with balance := balance } ∧
    balance.value = x.balance.value - k * amount
  target : ∃ balance, l.find? y.id = some { y with balance := balance } ∧
    balance.value = y.balance.value + k * amount

namespace Ledger

variable {l start : Ledger} {x y : Account} {amount : ℚ} {k : ℕ} {order : TransferOrder}

theorem Competition.amount_pos (h : start.Competition x y amount) : 0 < amount := by
  obtain ⟨n, hn, rfl⟩ := h.cents
  have : (0 : ℚ) < n := by exact_mod_cast hn
  positivity

/-- One more withdrawal is covered as long as not as many are granted as the funds contain. -/
theorem Competition.lt_capacity_iff (h : start.Competition x y amount) (k : ℕ) :
    k < x.capacity amount ↔ (k + 1) * amount ≤ x.balance.value := by
  have hpos := h.amount_pos
  rw [Account.capacity, ← Nat.succ_le_iff, Nat.le_floor_iff (div_nonneg h.funds hpos.le),
    le_div_iff₀ hpos]
  push_cast
  rfl

theorem Competition.withdrawn (h : start.Competition x y amount)
    (hplaces : TwoPlaces start.accounts) :
    start.Withdrawn x y amount 0 := by
  refine ⟨hplaces, ⟨x.balance, ?_, ?_⟩, y.balance, ?_, ?_⟩
  · exact find?_eq_some_iff.2 ⟨h.source, rfl⟩
  · simp
  · exact find?_eq_some_iff.2 ⟨h.target, rfl⟩
  · simp

namespace Withdrawn

/-- One more withdrawal is a payment between the two accounts as they are now. -/
theorem between (h : l.Withdrawn x y amount k) (hcompetition : start.Competition x y amount)
    (horder : order.Withdraws x y amount) :
    ∃ (n : ℕ) (available paid : Decimal),
      order.Between l { x with balance := available } { y with balance := paid } n ∧
      amount = n / 100 ∧ available.value = x.balance.value - k * amount ∧
      paid.value = y.balance.value + k * amount := by
  obtain ⟨n, hpos, hn⟩ := hcompetition.cents
  obtain ⟨available, hsource, havailable⟩ := h.source
  obtain ⟨paid, htarget, hpaid⟩ := h.target
  refine ⟨n, available, paid, ⟨?_, ?_, ?_, hcompetition.currency, hpos, ?_⟩, hn, havailable, hpaid⟩
  · rw [horder.source, hsource]
  · rw [horder.target, htarget]
  · rw [horder.source, horder.target]
    exact hcompetition.distinct
  · rw [Decimal.cents, horder.amount, hn]
    ring

/-- A withdrawal that is still covered is granted. -/
theorem grant (h : l.Withdrawn x y amount k) (hcompetition : start.Competition x y amount)
    (horder : order.Withdraws x y amount) (hk : k < x.capacity amount) :
    ∃ after, l.transfer order = (.ok (), after) ∧ after.Withdrawn x y amount (k + 1) := by
  obtain ⟨n, available, paid, hbetween, hn, havailable, hpaid⟩ := h.between hcompetition horder
  have hcover := (hcompetition.lt_capacity_iff k).1 hk
  have hpos := hcompetition.amount_pos
  have hmade : (0 : ℚ) ≤ k * amount := by positivity
  have hamount : (n : ℚ) = 100 * amount := by
    rw [hn]
    ring
  have hsource := abs_lt.1 hcompetition.fitsSource
  have htarget := abs_lt.1 hcompetition.fitsTarget
  have hboth := abs_lt.1 hcompetition.fitsBoth
  unfold Decimal.cents at hsource htarget hboth
  -- neither balance leaves the bounds: what is paid was there to begin with
  obtain ⟨p, after, htransfer, hafter, hpays⟩ := hbetween.transfer_covered h.places
    (by simp only [Decimal.cents]; linarith)
    (by simp only [Decimal.cents]; rw [abs_lt]; constructor <;> linarith)
    (by simp only [Decimal.cents]; rw [abs_lt]; constructor <;> linarith)
  have hdebit := hpays.debit
  have hcredit := hpays.credit
  simp only [Decimal.cents] at hdebit hcredit
  have hfrom := hafter.find_source
  have hto := hafter.find_target
  rw [horder.source] at hfrom
  rw [horder.target] at hto
  refine ⟨after, htransfer, keptByTransfers_twoPlaces.made hafter h.places,
    ⟨p.sourceBalance, hfrom, ?_⟩, p.targetBalance, hto, ?_⟩
  · push_cast
    linarith
  · push_cast
    linarith

/-- A withdrawal that is not covered any more is refused. -/
theorem refuse (h : l.Withdrawn x y amount k) (hcompetition : start.Competition x y amount)
    (horder : order.Withdraws x y amount) (hk : x.capacity amount ≤ k) :
    ∃ available, available.value = x.balance.value - k * amount ∧
      l.transfer order = (.error (.transferFailed
        (.insufficientFunds x.id available order.amount.asMoney)), l) := by
  obtain ⟨n, available, paid, hbetween, hn, havailable, -⟩ := h.between hcompetition horder
  have hlack := mt (hcompetition.lt_capacity_iff k).2 (not_lt.2 hk)
  have hamount : (n : ℚ) = 100 * amount := by
    rw [hn]
    ring
  have hrefused := hbetween.transfer_uncovered (by simp only [Decimal.cents]; linarith)
  rw [horder.source] at hrefused
  exact ⟨available, havailable, hrefused⟩

end Withdrawn

end Ledger

namespace Desk

variable {l start : Ledger} {x y : Account} {amount : ℚ} {k : ℕ}

/-! ## Requests -/

/-- A request that is no transfer is not granted and changes nothing. -/
theorem answer_of_orderOf?_eq_none {request : Except Malformed Request}
    (h : orderOf? request = none) (l : Ledger) :
    (answer request l).1 ≠ .ok ∧ (answer request l).2 = l := by
  rcases answer_cases request l with hother | ⟨order, source, target, p, rfl, -, -⟩
  · exact hother
  · simp [orderOf?] at h

/-- Whether a withdrawal is granted is decided by how many were granted before. -/
theorem answer_withdrawal (h : l.Withdrawn x y amount k)
    (hcompetition : start.Competition x y amount) {order : TransferOrder}
    (horder : order.Withdraws x y amount) :
    (k < x.capacity amount → (answer (.ok (.transfer order)) l).1 = .ok ∧
      (answer (.ok (.transfer order)) l).2.Withdrawn x y amount (k + 1)) ∧
    (x.capacity amount ≤ k → (answer (.ok (.transfer order)) l).2 = l ∧
      ∃ available, available.value = x.balance.value - k * amount ∧
        (answer (.ok (.transfer order)) l).1 = .error ("Transfer failed: " ++
          (Fault.insufficientFunds x.id available order.amount.asMoney).message)) := by
  constructor
  · intro hk
    obtain ⟨after, htransfer, hafter⟩ := h.grant hcompetition horder hk
    rw [answer_transfer, htransfer]
    exact ⟨rfl, hafter⟩
  · intro hk
    obtain ⟨available, havailable, htransfer⟩ := h.refuse hcompetition horder hk
    rw [answer_transfer, htransfer]
    exact ⟨rfl, available, havailable, rfl⟩

theorem granted_concat (responses : List Response) (response : Response) :
    granted (responses ++ [response]) = granted responses + if response = .ok then 1 else 0 := by
  unfold granted
  rw [List.count_append, List.count_singleton]
  simp

theorem transfers_concat (requests : List (Except Malformed Request))
    (request : Except Malformed Request) :
    transfers (requests ++ [request]) =
      transfers requests + if (orderOf? request).isSome then 1 else 0 := by
  unfold transfers
  rw [List.countP_append, List.countP_singleton]

/-- As many withdrawals are granted as there are, or as the funds contain, and the ledger is what so
many withdrawals leave. -/
theorem granted_answerAll (hcompetition : start.Competition x y amount)
    (hplaces : TwoPlaces start.accounts) {requests : List (Except Malformed Request)}
    (hrequests : ∀ order, .ok (.transfer order) ∈ requests → order.Withdraws x y amount) :
    granted (answerAll requests start).1 = min (transfers requests) (x.capacity amount) ∧
      (answerAll requests start).2.Withdrawn x y amount
        (min (transfers requests) (x.capacity amount)) := by
  induction requests using List.reverseRecOn with
  | nil =>
    rw [show transfers [] = 0 from rfl, Nat.zero_min]
    exact ⟨rfl, hcompetition.withdrawn hplaces⟩
  | append_singleton requests request ih =>
    obtain ⟨hgranted, hwithdrawn⟩ := ih fun order ho => hrequests order (List.mem_append_left _ ho)
    rw [answerAll_concat, granted_concat, transfers_concat, hgranted]
    generalize (answerAll requests start).2 = l at hwithdrawn ⊢
    cases horder : orderOf? request with
    | none =>
      -- neither count changes
      obtain ⟨hother, hsame⟩ := answer_of_orderOf?_eq_none horder l
      simp only [Option.isSome_none, Bool.false_eq_true, if_false, Nat.add_zero, if_neg hother,
        hsame]
      exact ⟨trivial, hwithdrawn⟩
    | some order =>
      rw [orderOf?_eq_some_iff] at horder
      subst horder
      have hmem := List.mem_append_right requests (List.mem_singleton_self (.ok (.transfer order)))
      obtain ⟨hgrant, hrefuse⟩ := answer_withdrawal hwithdrawn hcompetition (hrequests order hmem)
      simp only [Option.isSome_some, if_true]
      -- all have been granted so far, or the funds are used up
      rcases Nat.lt_or_ge (transfers requests) (x.capacity amount) with hless | hfull
      · rw [Nat.min_eq_left hless.le] at hgrant ⊢
        rw [Nat.min_eq_left hless]
        obtain ⟨hok, hafter⟩ := hgrant hless
        exact ⟨by rw [if_pos hok], hafter⟩
      · rw [Nat.min_eq_right hfull] at hrefuse hwithdrawn ⊢
        rw [Nat.min_eq_right (Nat.le_succ_of_le hfull)]
        obtain ⟨hsame, available, -, hrefused⟩ := hrefuse (Nat.le_refl _)
        rw [hrefused, hsame]
        exact ⟨rfl, hwithdrawn⟩

end Desk

end TransferDesk
