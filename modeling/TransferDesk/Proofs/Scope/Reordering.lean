import TransferDesk.Proofs.Commuting
import TransferDesk.Proofs.Ledger.Writing
import TransferDesk.Proofs.Scope.OneByOne
/-!
# The order of the staged balances

The staged balances of a scope are a table, and a table has no order. The list that holds them has
one, and it must not matter.

* A scope has exactly one staged balance for each account that a staged transfer names, and all
  these accounts exist (`Scope.Staged`). Every statement keeps this (`Staged.run`).
* Two scopes that differ in the order of the staged balances only (`Scope.Reordered`) show the same
  accounts, so every statement comes to the same in both and leaves two such scopes again
  (`Reordered.run`).
* A commit that writes the balances one by one leaves the same ledger in whatever order it does so
  (`Reordered.commitEach`).

A run in which the balances may change places before every statement and before the commit
(`Scope.Runs`) therefore has one outcome (`Ledger.commit_independent_of_order`).
-/

namespace TransferDesk

namespace Scope

/-- The accounts that have a staged balance. -/
def touched (s : Scope) : List AccountId :=
  s.balances.map Prod.fst

/-- There is one staged balance for each account that a staged transfer names and for no other, and
all of these accounts exist. -/
structure Staged (s : Scope) : Prop where
  once : s.touched.Nodup
  named : ∀ id, id ∈ s.touched ↔ ∃ order ∈ s.orders, order.Names id
  present : ∀ id ∈ s.touched, ∃ a, s.ledger.find? id = some a

/-- Two scopes that differ in nothing but the order of the staged balances. -/
structure Reordered (s t : Scope) : Prop where
  ledger : t.ledger = s.ledger
  access : t.access = s.access
  aborted : t.aborted = s.aborted
  orders : t.orders = s.orders
  balances : t.balances.Perm s.balances

/-- Posts what is staged by single writes, unless the scope is aborted. The balances are written in
the order that they are in. -/
def commitEach (s : Scope) : Except Fault Unit × Ledger :=
  if s.aborted then (.error .aborted, s.ledger)
  else (.ok (), s.ledger.postEach s.balances s.orders)

/-- A run of statements, what is observed in it and the scope that it ends in. The staged balances
may come into another order before each statement and at the end. -/
inductive Runs : Scope → List Statement → List Observation → Scope → Prop
  | done {s t : Scope} (order : s.Reordered t) : Runs s [] [] t
  | step {s t last : Scope} {q : Statement} {qs : List Statement} {seen : List Observation}
      (order : s.Reordered t) (rest : Runs (t.run q).2 qs seen last) :
      Runs s (q :: qs) (t.observation q :: seen) last

/-! ## What is staged -/

theorem map_fst_stageBalance (id : AccountId) (balance : Decimal)
    (balances : List (AccountId × Decimal)) :
    (stageBalance id balance balances).map Prod.fst =
      id :: (balances.map Prod.fst).filter (· ≠ id) := by
  unfold stageBalance
  rw [List.map_cons, List.filter_map]
  rfl

theorem nodup_stageBalance {balances : List (AccountId × Decimal)}
    (h : (balances.map Prod.fst).Nodup) (id : AccountId) (balance : Decimal) :
    ((stageBalance id balance balances).map Prod.fst).Nodup := by
  rw [map_fst_stageBalance, List.nodup_cons]
  constructor
  · simp
  · exact h.filter _

theorem mem_map_fst_stageBalance {id other : AccountId} {balance : Decimal}
    {balances : List (AccountId × Decimal)} :
    other ∈ (stageBalance id balance balances).map Prod.fst ↔
      other = id ∨ other ∈ balances.map Prod.fst := by
  rw [map_fst_stageBalance, List.mem_cons, List.mem_filter]
  by_cases h : other = id <;> simp [h]

section Staged

variable {s : Scope} {order : TransferOrder} {source target : Account} {p : Posting}

theorem mem_touched_staging {id : AccountId} :
    id ∈ (s.staging order p).touched ↔ order.Names id ∨ id ∈ s.touched := by
  show id ∈ (stageBalance order.target p.targetBalance
    (stageBalance order.source p.sourceBalance s.balances)).map Prod.fst ↔ _
  rw [mem_map_fst_stageBalance, mem_map_fst_stageBalance, ← or_assoc,
    or_comm (a := id = order.target)]
  rfl

theorem exists_account_of_view? {id : AccountId} {a : Account} (h : s.view? id = some a) :
    ∃ b, s.ledger.find? id = some b := by
  rcases Option.map_eq_some_iff.1 h with ⟨b, hb, -⟩
  exact ⟨b, hb⟩

theorem staged_begin (l : Ledger) (access : Access) : (begin l access).Staged where
  once := List.nodup_nil
  named := by simp [touched, begin]
  present := by simp [touched, begin]

/-- A transfer that is taken stages a balance for the two accounts that it names, in the place of
the ones they had. -/
theorem Staged.staging (hs : s.Staged) (h : s.Takes order source target p) :
    (s.staging order p).Staged where
  once := nodup_stageBalance (nodup_stageBalance hs.once order.source p.sourceBalance) _ _
  named := by
    intro id
    have horders : (s.staging order p).orders = s.orders ++ [p.order order] := rfl
    have hlast : (p.order order).Names id ↔ order.Names id := Iff.rfl
    rw [mem_touched_staging, hs.named, horders]
    simp only [List.mem_append, List.mem_singleton, or_and_right, exists_or, exists_eq_left, hlast]
    exact or_comm
  present := by
    intro id hid
    show ∃ a, s.ledger.find? id = some a
    rcases mem_touched_staging.1 hid with hnames | hbefore
    · rcases hnames with rfl | rfl
      · exact exists_account_of_view? h.view_source
      · exact exists_account_of_view? h.view_target
    · exact hs.present id hbefore

theorem Staged.run (hs : s.Staged) (q : Statement) : (s.run q).2.Staged := by
  rcases run_cases s q with hsame | habort | ⟨order, source, target, p, -, ht, htaken⟩
  · rw [hsame]
    exact hs
  · -- an aborted scope keeps what was staged in it
    rw [habort]
    exact ⟨hs.once, hs.named, hs.present⟩
  · rw [htaken]
    exact hs.staging ht

theorem Staged.observe (hs : s.Staged) (qs : List Statement) : (s.observe qs).2.Staged := by
  induction qs generalizing s with
  | nil => exact hs
  | cons q qs ih => exact ih (hs.run q)

end Staged

/-! ## Scopes that differ in the order -/

theorem Reordered.refl (s : Scope) : s.Reordered s :=
  ⟨rfl, rfl, rfl, rfl, .refl _⟩

theorem Reordered.trans {s t u : Scope} (hst : s.Reordered t) (htu : t.Reordered u) :
    s.Reordered u where
  ledger := htu.ledger.trans hst.ledger
  access := htu.access.trans hst.access
  aborted := htu.aborted.trans hst.aborted
  orders := htu.orders.trans hst.orders
  balances := htu.balances.trans hst.balances

section Reordered

variable {s t : Scope}

/-- The order has no say in what is shown. -/
theorem Reordered.view? (h : s.Reordered t) (hs : s.Staged) (id : AccountId) :
    t.view? id = s.view? id := by
  show (t.ledger.find? id).map (Ledger.rebalance t.balances) =
    (s.ledger.find? id).map (Ledger.rebalance s.balances)
  rw [h.ledger, ← Ledger.find?_post _ _ [], ← Ledger.find?_post _ _ [],
    Ledger.post_perm s.ledger hs.once h.balances]

theorem Reordered.staging (h : s.Reordered t) (order : TransferOrder) (p : Posting) :
    (s.staging order p).Reordered (t.staging order p) where
  ledger := h.ledger
  access := h.access
  aborted := h.aborted
  orders := congrArg (· ++ [p.order order]) h.orders
  balances := (((h.balances.filter _).cons _).filter _).cons _

/-- The order has no say in what a statement comes to. -/
theorem Reordered.run (h : s.Reordered t) (hs : s.Staged) (q : Statement) :
    (t.run q).1 = (s.run q).1 ∧ (s.run q).2.Reordered (t.run q).2 := by
  cases q with
  | access => exact ⟨congrArg Except.ok h.access, h⟩
  | account id =>
    refine ⟨?_, h⟩
    simp only [Scope.run, h.aborted, h.view? hs]
  | balance id =>
    refine ⟨?_, h⟩
    simp only [Scope.run, h.aborted, h.view? hs]
  | transfer order =>
    rcases habort : s.aborted with _ | _
    · have htabort : t.aborted = false := h.aborted.trans habort
      rcases stage_alike h.access (h.view? hs) order with
        ⟨fault, hstage, htstage⟩ | ⟨p, hstage, htstage⟩
      · rw [run_transfer_of_error habort hstage, run_transfer_of_error htabort htstage]
        exact ⟨rfl, h.ledger, h.access, rfl, h.orders, h.balances⟩
      · rw [run_transfer_of_ok habort hstage, run_transfer_of_ok htabort htstage]
        exact ⟨rfl, h.staging order p⟩
    · have htabort : t.aborted = true := h.aborted.trans habort
      rw [(run_of_aborted habort _).1, (run_of_aborted htabort _).1]
      refine ⟨?_, h⟩
      simp only [Scope.run, habort, htabort, if_true]

theorem Reordered.observation (h : s.Reordered t) (hs : s.Staged) (q : Statement) :
    t.observation q = s.observation q := by
  rcases h.run hs q with ⟨hanswer, hafter⟩
  unfold Scope.observation isDirty
  rw [hanswer, hafter.orders]

/-- The order has no say in what a commit leaves, by single writes or at once. -/
theorem Reordered.commitEach (h : s.Reordered t) (hs : s.Staged) : t.commitEach = s.commit := by
  unfold Scope.commitEach commit
  rw [h.aborted, h.ledger, h.orders, Ledger.postEach_perm s.ledger hs.once h.balances,
    Ledger.postEach_eq_post s.ledger hs.once]

/-! ## Runs -/

/-- Whatever order the staged balances come into, the same is observed, and the run ends in the same
scope but for the order. -/
theorem Runs.reordered {qs : List Statement} {seen : List Observation} {last : Scope}
    (hrun : t.Runs qs seen last) (h : s.Reordered t) (hs : s.Staged) :
    seen = (s.observe qs).1 ∧ (s.observe qs).2.Reordered last := by
  induction hrun generalizing s with
  | done order => exact ⟨rfl, h.trans order⟩
  | step order rest ih =>
    rename_i q qs seen
    have hmid := h.trans order
    rcases ih (hmid.run hs q).2 (hs.run q) with ⟨hseen, hlast⟩
    rw [observe_cons, hmid.observation hs q, hseen]
    exact ⟨rfl, hlast⟩

/-- A run in which the order changes at the end only. -/
theorem runs_observe {qs : List Statement} {last : Scope} (h : (s.observe qs).2.Reordered last) :
    s.Runs qs (s.observe qs).1 last := by
  induction qs generalizing s with
  | nil => exact .done h
  | cons q qs ih => exact .step (.refl s) (ih h)

end Reordered

end Scope

namespace Ledger

/-- What can come of statements in a scope that is committed then, if the staged balances are in any
order at any time and the commit writes them in the order that they have come into. -/
def MayCommit (l : Ledger) (access : Access) (qs : List Statement) (outcome : Visit.Log × Ledger) :
    Prop :=
  ∃ last, (Scope.begin l access).Runs qs outcome.1.observations last ∧
    last.commitEach = (outcome.1.ending, outcome.2)

/-- Nothing else can come of it than what comes of the visit that is ended by a commit. -/
theorem mayCommit_iff {l : Ledger} {access : Access} {qs : List Statement}
    {outcome : Visit.Log × Ledger} :
    l.MayCommit access qs outcome ↔
      outcome = l.visit { access := access, statements := qs, closing := .commit } := by
  have hstaged := Scope.staged_begin l access
  constructor
  · rintro ⟨last, hrun, hcommit⟩
    rcases hrun.reordered (.refl _) hstaged with ⟨hseen, hlast⟩
    rw [hlast.commitEach (hstaged.observe qs)] at hcommit
    rcases outcome with ⟨⟨observations, ending⟩, after⟩
    rcases Prod.mk.inj (hcommit.symm) with ⟨hending, hafter⟩
    subst hseen hending hafter
    rfl
  · rintro rfl
    have hsame := Scope.Reordered.refl ((Scope.begin l access).observe qs).2
    exact ⟨_, Scope.runs_observe hsame, hsame.commitEach (hstaged.observe qs)⟩

/-- A commit does not depend on the order of the staged balances. Take any ledger and any scope that
statements lead to on it.

* Each account that a staged transfer names has exactly one staged balance, no other account has
one, and all of these accounts exist.
* Written one by one in whatever order, the staged balances and the transfers leave the ledger that
is posted.
* The same statements in scopes on equal ledgers have the same answers, and their commits come to
the same and leave equal ledgers, whatever orders the staged balances are in meanwhile and whatever
orders the commits write them in. This is what comes of the visit that is ended by a commit. -/
theorem commit_independent_of_order (l : Ledger) (access : Access) (qs : List Statement) :
    let s := ((Scope.begin l access).observe qs).2
    (s.balances.map Prod.fst).Nodup ∧
    (∀ id, id ∈ s.balances.map Prod.fst ↔ ∃ order ∈ s.orders, order.Names id) ∧
    (∀ id ∈ s.balances.map Prod.fst, ∃ a, l.find? id = some a) ∧
    (∀ reordered, reordered.Perm s.balances → l.postEach reordered s.orders = s.posted) ∧
    (∀ m, m = l → ∀ outcome other, l.MayCommit access qs outcome → m.MayCommit access qs other →
      outcome = other) ∧
    l.MayCommit access qs (l.visit { access := access, statements := qs, closing := .commit }) := by
  intro s
  have hstaged : s.Staged := (Scope.staged_begin l access).observe qs
  have hledger : s.ledger = l := Scope.ledger_observe _ _
  refine ⟨hstaged.once, hstaged.named, ?_, ?_, ?_, mayCommit_iff.2 rfl⟩
  · intro id hid
    rw [← hledger]
    exact hstaged.present id hid
  · intro reordered hperm
    rw [postEach_perm l hstaged.once hperm, postEach_eq_post l hstaged.once, ← hledger]
    rfl
  · rintro m rfl outcome other houtcome hother
    rw [mayCommit_iff.1 houtcome, mayCommit_iff.1 hother]

/-- A ledger of three accounts, of which one has something. -/
def oneOfThree : Ledger where
  accounts := [
    { id := 1, balance := Decimal.ofParts 1000 2, currency := "USD" },
    { id := 2, balance := Decimal.ofParts 0 2, currency := "USD" },
    { id := 3, balance := Decimal.ofParts 0 2, currency := "USD" }]
  ascending := by decide

/-- Six go round, and on the way less and less of it. -/
def goneRound : List Statement := [
  .transfer ⟨1, 2, Decimal.ofParts 6 0, "out"⟩,
  .transfer ⟨2, 3, Decimal.ofParts 4 0, "on"⟩,
  .balance 2,
  .transfer ⟨3, 1, Decimal.ofParts 1 0, "home"⟩]

/-- Each account was staged twice and has one balance, and the balances can as well be written from
the last to the first. -/
theorem goneRound_in_any_order :
    let s := ((Scope.begin oneOfThree .readWrite).observe goneRound).2
    s.balances =
      [(1, Decimal.ofParts 500 2), (3, Decimal.ofParts 300 2), (2, Decimal.ofParts 200 2)] ∧
    s.balances.reverse.Perm s.balances ∧
    oneOfThree.postEach s.balances.reverse s.orders = s.posted ∧
    ∀ outcome, oneOfThree.MayCommit .readWrite goneRound outcome →
      outcome.1.ending = .ok () ∧ outcome.2.journal.map JournalEntry.number = [1, 2, 3] ∧
      outcome.2.accounts.map Account.balance =
        [Decimal.ofParts 500 2, Decimal.ofParts 200 2, Decimal.ofParts 300 2] := by
  intro s
  have hstaged : s.balances =
      [(1, Decimal.ofParts 500 2), (3, Decimal.ofParts 300 2), (2, Decimal.ofParts 200 2)] := by
    decide +kernel
  have hperm : s.balances.reverse.Perm s.balances := List.reverse_perm s.balances
  rcases commit_independent_of_order oneOfThree .readWrite goneRound with
    ⟨-, -, -, hposted, hsame, hvisit⟩
  refine ⟨hstaged, hperm, hposted _ hperm, ?_⟩
  intro outcome houtcome
  rw [hsame oneOfThree rfl outcome _ houtcome hvisit]
  decide +kernel

end Ledger

end TransferDesk
