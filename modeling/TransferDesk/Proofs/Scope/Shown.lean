import TransferDesk.Scope
/-!
# What a scope shows

The accounts that a scope shows are those of its ledger with the staged balances laid over them, and
its history is the journal with the staged transfers behind it. `stage_eq_ok_iff` says all that a
transfer can do to the two: it was `Settled` between two accounts shown, both of them get their new
balances, every other account stays as it is, and the history grows by one.

`KeptByTransfers.run` and `KeptByTransfers.observe` lift what one transfer keeps to whole runs of
statements.
-/

namespace TransferDesk

/-! ## Rules of a transfer -/

/-- The rules that a transfer between two accounts meets, and what it then comes to. -/
structure Settled (source target : Account) (amount : Decimal) (p : Posting) : Prop where
  positive : amount.Positive
  money : ¬ amount.ExceedsMoney
  distinct : source.id ≠ target.id
  currency : source.currency = target.currency
  funds : ¬ source.balance < amount.asMoney
  booked : p.amount = amount.asMoney
  debit : source.balance.sub? amount.asMoney = some p.sourceBalance
  credit : target.balance.add? amount.asMoney = some p.targetBalance

theorem checkAmount_eq_ok_iff {amount booked : Decimal} :
    checkAmount amount = .ok booked ↔
      amount.Positive ∧ ¬ amount.ExceedsMoney ∧ booked = amount.asMoney := by
  unfold checkAmount
  split
  · simp_all
  · split
    · simp_all
    · simp_all [eq_comm]

/-- A transfer is settled if it meets all the rules. -/
theorem settle_eq_ok_iff {source target : Account} {amount : Decimal} {p : Posting} :
    settle source target amount = .ok p ↔ Settled source target amount p := by
  constructor
  · intro h
    unfold settle at h
    split at h
    · simp at h
    · rename_i booked hbooked
      obtain ⟨hpos, hmoney, rfl⟩ := checkAmount_eq_ok_iff.1 hbooked
      -- one split for each rule, in the order in which they are tried
      unfold book at h
      split at h
      · simp at h
      · rename_i hid
        split at h
        · simp at h
        · rename_i hcur
          split at h
          · simp at h
          · rename_i hfunds
            split at h
            · simp at h
            · rename_i debit hdebit
              split at h
              · simp at h
              · rename_i credit hcredit
                obtain rfl := Except.ok.inj h
                exact ⟨hpos, hmoney, hid, Decidable.not_not.1 hcur, hfunds, rfl, hdebit, hcredit⟩
  · intro h
    have hcheck : checkAmount amount = .ok amount.asMoney :=
      checkAmount_eq_ok_iff.2 ⟨h.positive, h.money, rfl⟩
    obtain ⟨booked, debit, credit⟩ := p
    obtain rfl := h.booked
    unfold settle
    rw [hcheck]
    simp only
    unfold book
    rw [if_neg h.distinct, if_neg (not_not_intro h.currency), if_neg h.funds, h.debit, h.credit]

/-- A transfer that is refused for its size met every other rule, and the fault says which balance
it is. -/
theorem settle_eq_overflow {source target : Account} {amount : Decimal} {operation : String}
    {id : AccountId} (h : settle source target amount = .error (.overflow operation id)) :
    amount.Positive ∧ ¬ amount.ExceedsMoney ∧ source.id ≠ target.id ∧
      ¬ source.balance < amount.asMoney ∧
      (operation = "transfer debit" ∧ id = source.id ∧ source.balance.sub? amount.asMoney = none ∨
        operation = "transfer credit" ∧ id = target.id ∧
          target.balance.add? amount.asMoney = none) := by
  unfold settle at h
  split at h
  · rename_i fault hfault
    unfold checkAmount at hfault
    split at hfault
    · simp_all
    · split at hfault <;> simp_all
  · rename_i booked hbooked
    obtain ⟨hpos, hmoney, rfl⟩ := checkAmount_eq_ok_iff.1 hbooked
    unfold book at h
    split at h
    · simp at h
    · rename_i hid
      split at h
      · simp at h
      · split at h
        · simp at h
        · rename_i hfunds
          refine ⟨hpos, hmoney, hid, hfunds, ?_⟩
          split at h
          · rename_i hdebit
            cases h
            exact Or.inl ⟨rfl, rfl, hdebit⟩
          · split at h
            · rename_i hcredit
              cases h
              exact Or.inr ⟨rfl, rfl, hcredit⟩
            · cases h

/-- An account after a transfer: the two that it names have new balances. -/
def Posting.update (p : Posting) (order : TransferOrder) (a : Account) : Account :=
  if a.id = order.target then { a with balance := p.targetBalance }
  else if a.id = order.source then { a with balance := p.sourceBalance }
  else a

/-- A transfer sets a balance of each account, and that of a third one is the one it has. -/
theorem Posting.exists_balance (p : Posting) (order : TransferOrder) :
    ∃ balance : Account → Decimal, (∀ a, p.update order a = { a with balance := balance a }) ∧
      ∀ a, a.id ≠ order.source → a.id ≠ order.target → balance a = a.balance := by
  refine ⟨fun a => (p.update order a).balance, ?_, ?_⟩
  · intro a
    unfold Posting.update
    by_cases htarget : a.id = order.target
    · simp only [if_pos htarget]
    · by_cases hsource : a.id = order.source
      · simp only [if_neg htarget, if_pos hsource]
      · simp only [if_neg htarget, if_neg hsource]
  · intro a hsource htarget
    unfold Posting.update
    simp only [if_neg htarget, if_neg hsource]

/-- The order as it is booked. -/
def Posting.order (p : Posting) (order : TransferOrder) : TransferOrder :=
  { order with amount := p.amount }

namespace Scope

/-! ## The overlay -/

/-- The accounts of the ledger with the staged balances. -/
def shown (s : Scope) : List Account :=
  s.ledger.accounts.map (Ledger.rebalance s.balances)

/-- The transfers made before the scope and those staged in it, oldest first. -/
def history (s : Scope) : List TransferOrder :=
  s.ledger.journal.map JournalEntry.order ++ s.orders

theorem shown_begin (l : Ledger) (access : Access) : (begin l access).shown = l.accounts := by
  unfold shown
  have : Ledger.rebalance (begin l access).balances = id := by
    funext a
    rfl
  rw [this]
  exact List.map_id _

theorem history_begin (l : Ledger) (access : Access) :
    (begin l access).history = l.journal.map JournalEntry.order :=
  List.append_nil _

theorem ascending_shown (s : Scope) : Keyed.Ascending Account.key s.shown := by
  unfold shown
  refine List.pairwise_map.2 (s.ledger.ascending.imp ?_)
  intro a b h
  simpa [Account.key] using h

theorem view?_eq_some_iff {s : Scope} {id : AccountId} {a : Account} :
    s.view? id = some a ↔ a ∈ s.shown ∧ a.id = id := by
  unfold view? shown
  rw [Option.map_eq_some_iff, List.mem_map]
  constructor
  · rintro ⟨b, hb, rfl⟩
    obtain ⟨hmem, hid⟩ := Ledger.find?_eq_some_iff.1 hb
    exact ⟨⟨b, hmem, rfl⟩, by rw [Ledger.id_rebalance, hid]⟩
  · rintro ⟨⟨b, hmem, rfl⟩, hid⟩
    rw [Ledger.id_rebalance] at hid
    exact ⟨b, Ledger.find?_eq_some_iff.2 ⟨hmem, hid⟩, rfl⟩

theorem lookup_filter_ne (id other : AccountId) (balances : List (AccountId × Decimal)) :
    (balances.filter (·.1 ≠ id)).lookup other =
      if other = id then none else balances.lookup other := by
  induction balances with
  | nil => simp
  | cons b bs ih =>
    obtain ⟨key, balance⟩ := b
    by_cases hkey : key = id
    · rw [List.filter_cons_of_neg (by simpa using hkey), ih]
      by_cases ho : other = id
      · rw [if_pos ho, if_pos ho]
      · have : (other == key) = false := by simpa [hkey] using ho
        rw [if_neg ho, if_neg ho, List.lookup_cons, this]
    · rw [List.filter_cons_of_pos (by simpa using hkey), List.lookup_cons, List.lookup_cons, ih]
      by_cases ho : other = key
      · subst ho
        simp [hkey]
      · have : (other == key) = false := by simpa using ho
        rw [this]

theorem lookup_stageBalance (id other : AccountId) (balance : Decimal)
    (balances : List (AccountId × Decimal)) :
    (stageBalance id balance balances).lookup other =
      if other = id then some balance else balances.lookup other := by
  unfold stageBalance
  rw [List.lookup_cons, lookup_filter_ne]
  by_cases h : other = id
  · simp [h]
  · have : (other == id) = false := by simpa using h
    rw [this, if_neg h, if_neg h]

/-- The scope after a transfer that came to `p`. -/
def staging (s : Scope) (order : TransferOrder) (p : Posting) : Scope :=
  { s with
    balances := stageBalance order.target p.targetBalance
      (stageBalance order.source p.sourceBalance s.balances)
    orders := s.orders ++ [p.order order] }

theorem rebalance_eq (balances : List (AccountId × Decimal)) (a : Account) :
    Ledger.rebalance balances a =
      { a with balance := (balances.lookup a.id).getD a.balance } := by
  unfold Ledger.rebalance
  split
  · rename_i balance h
    rw [h, Option.getD_some]
  · rename_i h
    rw [h, Option.getD_none]

@[simp] theorem rebalance_staging (s : Scope) (order : TransferOrder) (p : Posting) (a : Account) :
    Ledger.rebalance (s.staging order p).balances a =
      p.update order (Ledger.rebalance s.balances a) := by
  rw [rebalance_eq, rebalance_eq]
  unfold staging Posting.update
  simp only [lookup_stageBalance]
  -- the target's balance is staged last, so it is found first
  by_cases ht : a.id = order.target
  · rw [if_pos ht, if_pos ht, Option.getD_some]
  · rw [if_neg ht, if_neg ht]
    by_cases hs : a.id = order.source
    · rw [if_pos hs, if_pos hs, Option.getD_some]
    · rw [if_neg hs, if_neg hs]

@[simp] theorem shown_staging (s : Scope) (order : TransferOrder) (p : Posting) :
    (s.staging order p).shown = s.shown.map (p.update order) := by
  unfold shown
  rw [List.map_map]
  refine List.map_congr_left ?_
  intro a _
  exact rebalance_staging s order p a

@[simp] theorem view?_staging (s : Scope) (order : TransferOrder) (p : Posting) (id : AccountId) :
    (s.staging order p).view? id = (s.view? id).map (p.update order) := by
  unfold view?
  rw [Option.map_map]
  congr 1
  funext a
  exact rebalance_staging s order p a

/-- An account that the order does not name is shown as before. -/
theorem view?_staging_of_ne {s : Scope} {order : TransferOrder} {p : Posting} {id : AccountId}
    (hsource : id ≠ order.source) (htarget : id ≠ order.target) :
    (s.staging order p).view? id = s.view? id := by
  rw [view?_staging]
  rcases hview : s.view? id with _ | a
  · rfl
  · have hid : a.id = id := (view?_eq_some_iff.1 hview).2
    rw [Option.map_some]
    unfold Posting.update
    rw [hid, if_neg htarget, if_neg hsource]

@[simp] theorem history_staging (s : Scope) (order : TransferOrder) (p : Posting) :
    (s.staging order p).history = s.history ++ [p.order order] :=
  (List.append_assoc _ _ _).symm

/-! ## One statement -/

/-- The scope takes a transfer, which comes to `p`. -/
structure Takes (s : Scope) (order : TransferOrder) (source target : Account) (p : Posting) :
    Prop where
  writes : s.access = .readWrite
  view_source : s.view? order.source = some source
  view_target : s.view? order.target = some target
  settled : Settled source target order.amount p

/-- All that a transfer can do to a scope. -/
theorem stage_eq_ok_iff {s after : Scope} {order : TransferOrder} :
    s.stage order = .ok after ↔
      ∃ source target p, s.Takes order source target p ∧ after = s.staging order p := by
  constructor
  · intro h
    unfold stage at h
    split at h
    · simp at h
    · rename_i hwrites
      split at h
      · simp at h
      · rename_i source hsource
        split at h
        · simp at h
        · rename_i target htarget
          split at h
          · simp at h
          · rename_i p hp
            refine ⟨source, target, p, ⟨?_, hsource, htarget, settle_eq_ok_iff.1 hp⟩, ?_⟩
            · cases haccess : s.access with
              | readOnly => exact absurd haccess hwrites
              | readWrite => rfl
            · exact (Except.ok.inj h).symm
  · rintro ⟨source, target, p, ht, rfl⟩
    unfold stage
    rw [if_neg (by rw [ht.writes]; decide), ht.view_source, ht.view_target]
    simp only
    rw [settle_eq_ok_iff.2 ht.settled]
    rfl

section Takes

variable {s : Scope} {order : TransferOrder} {source target : Account} {p : Posting}

theorem Takes.source_mem (h : s.Takes order source target p) : source ∈ s.shown :=
  (view?_eq_some_iff.1 h.view_source).1

theorem Takes.target_mem (h : s.Takes order source target p) : target ∈ s.shown :=
  (view?_eq_some_iff.1 h.view_target).1

theorem Takes.source_id (h : s.Takes order source target p) : source.id = order.source :=
  (view?_eq_some_iff.1 h.view_source).2

theorem Takes.target_id (h : s.Takes order source target p) : target.id = order.target :=
  (view?_eq_some_iff.1 h.view_target).2

theorem Takes.update_source (h : s.Takes order source target p) :
    p.update order source = { source with balance := p.sourceBalance } := by
  unfold Posting.update
  rw [if_neg, if_pos h.source_id]
  rw [← h.target_id]
  exact h.settled.distinct

theorem Takes.update_target (h : s.Takes order source target p) :
    p.update order target = { target with balance := p.targetBalance } := by
  unfold Posting.update
  rw [if_pos h.target_id]

end Takes

/-- A transfer that is refused for its size was settled between two accounts shown. -/
theorem stage_eq_overflow {s : Scope} {order : TransferOrder} {operation : String} {id : AccountId}
    (h : s.stage order = .error (.overflow operation id)) :
    ∃ source target, s.view? order.source = some source ∧ s.view? order.target = some target ∧
      settle source target order.amount = .error (.overflow operation id) := by
  unfold stage at h
  split at h
  · simp at h
  · split at h
    · simp at h
    · rename_i source hsource
      split at h
      · simp at h
      · rename_i target htarget
        split at h
        · rename_i fault hfault
          rw [Except.error.inj h] at hfault
          exact ⟨source, target, hsource, htarget, hfault⟩
        · simp at h

/-- A statement leaves the scope as it is, aborts it, or is a transfer that the scope takes. -/
theorem run_cases (s : Scope) (q : Statement) :
    (s.run q).2 = s ∨ (s.run q).2 = { s with aborted := true } ∨
      ∃ order source target p, q = .transfer order ∧ s.Takes order source target p ∧
        (s.run q).2 = s.staging order p := by
  cases q with
  | access => exact Or.inl rfl
  | account id => exact Or.inl rfl
  | balance id => exact Or.inl rfl
  | transfer order =>
    by_cases habort : s.aborted = true
    · left
      simp only [run, if_pos habort]
    · right
      cases hstage : s.stage order with
      | error fault =>
        left
        simp only [run, if_neg habort, hstage]
      | ok after =>
        right
        obtain ⟨source, target, p, ht, rfl⟩ := stage_eq_ok_iff.1 hstage
        refine ⟨order, source, target, p, rfl, ht, ?_⟩
        simp only [run, if_neg habort, hstage]

/-- A transfer that is answered was taken. -/
theorem run_transfer_eq_ok {s after : Scope} {order : TransferOrder}
    (h : s.run (.transfer order) = (.ok (), after)) :
    ∃ source target p, s.Takes order source target p ∧ after = s.staging order p := by
  by_cases habort : s.aborted = true
  · simp [run, habort] at h
  · cases hstage : s.stage order with
    | error fault => simp [run, habort, hstage] at h
    | ok staged =>
      simp only [run, if_neg habort, hstage, Prod.mk.injEq, true_and] at h
      rw [← h]
      exact stage_eq_ok_iff.1 hstage

/-- The fault of a transfer is the one it was refused with, or that the scope was aborted. -/
theorem run_transfer_eq_error {s after : Scope} {order : TransferOrder} {fault : Fault}
    (h : s.run (.transfer order) = (.error fault, after)) :
    fault = .aborted ∨ s.stage order = .error fault := by
  by_cases habort : s.aborted = true
  · left
    simp only [run, if_pos habort, Prod.mk.injEq, Except.error.injEq] at h
    exact h.1.symm
  · right
    cases hstage : s.stage order with
    | error found =>
      simp only [run, if_neg habort, hstage, Prod.mk.injEq, Except.error.injEq] at h
      rw [h.1]
    | ok staged => simp [run, habort, hstage] at h

/-! ## Runs of statements -/

/-- What every transfer keeps, of the accounts shown and the history behind them. -/
def KeptByTransfers (P : List Account → List TransferOrder → Prop) : Prop :=
  ∀ ⦃s : Scope⦄ ⦃order : TransferOrder⦄ ⦃source target : Account⦄ ⦃p : Posting⦄,
    s.Takes order source target p → P s.shown s.history →
      P (s.shown.map (p.update order)) (s.history ++ [p.order order])

variable {P : List Account → List TransferOrder → Prop}

theorem KeptByTransfers.run (hP : KeptByTransfers P) {s : Scope} (h : P s.shown s.history)
    (q : Statement) : P (s.run q).2.shown (s.run q).2.history := by
  rcases run_cases s q with hs | hs | ⟨order, source, target, p, -, ht, hs⟩
  · rw [hs]
    exact h
  · -- an aborted scope shows what it showed before
    rw [hs]
    exact h
  · rw [hs, shown_staging, history_staging]
    exact hP ht h

theorem KeptByTransfers.observe (hP : KeptByTransfers P) {s : Scope} (h : P s.shown s.history)
    (qs : List Statement) : P (s.observe qs).2.shown (s.observe qs).2.history := by
  induction qs generalizing s with
  | nil => exact h
  | cons q qs ih => exact ih (hP.run h q)

/-- Whatever is observed in a run was answered by a scope that the run has passed through. -/
theorem KeptByTransfers.of_mem_observe (hP : KeptByTransfers P) {s : Scope}
    (h : P s.shown s.history) {qs : List Statement} {o : Observation} (ho : o ∈ (s.observe qs).1) :
    ∃ mid : Scope, P mid.shown mid.history ∧
      o = ⟨o.statement, (mid.run o.statement).1, (mid.run o.statement).2.isDirty⟩ := by
  induction qs generalizing s with
  | nil => simp [Scope.observe] at ho
  | cons q qs ih =>
    simp only [Scope.observe] at ho
    rcases List.mem_cons.1 ho with rfl | ho
    · exact ⟨s, h, rfl⟩
    · exact ih (hP.run h q) ho

end Scope

end TransferDesk
