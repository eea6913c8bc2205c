import TransferDesk.Proofs.Scope.Endings
/-!
# Statements one by one

A scope for writing, as long as nothing has failed in it, cannot be told from one that is opened on
the ledger that a commit would leave: it shows the same accounts, and a statement that is run in
either comes to the same and leaves the same to be posted (`run_begin_posted`).

So many statements in one scope are the same as each of them in a scope of its own
(`Ledger.scope_simulates_single_statements`).
-/

namespace TransferDesk

/-! ## Scopes of their own -/

/-- What a scope of its own has to allow for a statement. -/
def Statement.needs : Statement → Access
  | .account _ | .balance _ => .readOnly
  | .access | .transfer _ => .readWrite

/-- The visit for nothing but one statement. -/
def Statement.alone (q : Statement) : Visit where
  access := q.needs
  statements := [q]
  closing := .commit

/-- A statement and its answer, without what was staged. -/
def Scope.Observation.result (o : Observation) : (q : Statement) × Except Fault q.Answer :=
  ⟨o.statement, o.answer⟩

namespace Scope

/-! ## The ledger that a commit would leave -/

theorem view?_begin_posted (s : Scope) (access : Access) (id : AccountId) :
    (begin s.posted access).view? id = s.view? id := by
  change (s.posted.find? id).map (Ledger.rebalance []) = _
  unfold posted
  rw [Ledger.find?_post, Option.map_map]
  rfl

/-- To stage on the ledger that a commit would leave is to stage in the scope. -/
theorem posted_staging (s : Scope) (access : Access) (order : TransferOrder) (p : Posting) :
    ((begin s.posted access).staging order p).posted = (s.staging order p).posted := by
  refine Ledger.post_post s.ledger ?_ s.orders [p.order order]
  intro a
  rw [rebalance_staging, rebalance_staging]
  rfl

/-- Scopes that allow and show the same decide alike on a transfer. -/
theorem stage_alike {s t : Scope} (haccess : t.access = s.access)
    (hview : ∀ id, t.view? id = s.view? id) (order : TransferOrder) :
    (∃ fault, s.stage order = .error fault ∧ t.stage order = .error fault) ∨
      ∃ p, s.stage order = .ok (s.staging order p) ∧ t.stage order = .ok (t.staging order p) := by
  -- the rules are tried in the same order, each on what both scopes show
  unfold stage
  rw [hview, hview]
  by_cases hreads : s.access = .readOnly
  · rw [if_pos hreads, if_pos (haccess.trans hreads)]
    exact Or.inl ⟨_, rfl, rfl⟩
  · rw [if_neg hreads, if_neg (haccess.trans_ne hreads)]
    cases s.view? order.source with
    | none => exact Or.inl ⟨_, rfl, rfl⟩
    | some source =>
      cases s.view? order.target with
      | none => exact Or.inl ⟨_, rfl, rfl⟩
      | some target =>
        cases hsettle : settle source target order.amount with
        | error fault => exact Or.inl ⟨fault, by simp only [hsettle], by simp only [hsettle]⟩
        | ok p => exact Or.inr ⟨p, by simp only [hsettle]; rfl, by simp only [hsettle]; rfl⟩

/-- A statement comes to the same in a scope and on the ledger that a commit would leave. -/
theorem run_begin_posted {s : Scope} (hwrites : s.access = .readWrite) (hactive : s.aborted = false)
    (q : Statement) :
    ((begin s.posted q.needs).run q).1 = (s.run q).1 ∧
      ((s.run q).2.aborted = false →
        ((begin s.posted q.needs).run q).2.posted = (s.run q).2.posted) := by
  have hfresh : (begin s.posted q.needs).aborted = false := rfl
  cases q with
  | access => exact ⟨congrArg Except.ok hwrites.symm, fun _ => posted_begin _ _⟩
  | account id =>
    refine ⟨?_, fun _ => posted_begin _ _⟩
    simp only [run, hfresh, hactive, view?_begin_posted]
  | balance id =>
    refine ⟨?_, fun _ => posted_begin _ _⟩
    simp only [run, hfresh, hactive, view?_begin_posted]
  | transfer order =>
    have halike := stage_alike (t := begin s.posted .readWrite) hwrites.symm
      (view?_begin_posted s .readWrite) order
    rcases halike with ⟨fault, hs, ht⟩ | ⟨p, hs, ht⟩
    · -- both refuse the transfer, and the scope is aborted now
      rw [run_transfer_of_error hactive hs]
      change ((begin s.posted .readWrite).run _).1 = _ ∧ _
      rw [run_transfer_of_error rfl ht]
      simp
    · rw [run_transfer_of_ok hactive hs]
      change ((begin s.posted .readWrite).run _).1 = _ ∧
        (_ → ((begin s.posted .readWrite).run _).2.posted = _)
      rw [run_transfer_of_ok rfl ht]
      exact ⟨rfl, fun _ => posted_staging s .readWrite order p⟩

/-! ## Runs of statements -/

/-- One statement of many, while nothing has failed. -/
theorem visit_alone {s : Scope} (hwrites : s.access = .readWrite) (hactive : s.aborted = false)
    (q : Statement) :
    (s.posted.visit q.alone).1.observations.map Observation.result = [(s.observation q).result] ∧
      ((s.observation q).fault? = none →
        (s.run q).2.aborted = false ∧ (s.posted.visit q.alone).2 = (s.run q).2.posted) := by
  obtain ⟨hanswer, hposted⟩ := run_begin_posted hwrites hactive q
  constructor
  · change [(⟨q, ((begin s.posted q.needs).run q).1⟩ : (q : Statement) × Except Fault q.Answer)] = _
    rw [hanswer]
    rfl
  · intro hnone
    have hgood : (s.run q).2.aborted = false := (active_run_iff hactive q).2 hnone
    have halone : ((begin s.posted q.needs).run q).2.aborted = false :=
      (active_run_iff rfl q).2 ((fault?_congr hanswer).trans hnone)
    refine ⟨hgood, ?_⟩
    change ((begin s.posted q.needs).run q).2.commit.2 = _
    rw [commit_of_active halone]
    exact hposted hgood

/-- Up to the first statement that fails, it included, all answers are those of scopes of their
own. -/
theorem results_alike {s : Scope} (hwrites : s.access = .readWrite) (hactive : s.aborted = false)
    {n : Nat} {qs : List Statement} (hgood : ∀ o ∈ (s.observe qs).1.take n, o.fault? = none) :
    ((s.observe qs).1.map Observation.result).take (n + 1) =
      ((s.posted.visitAll (qs.map Statement.alone)).1.flatMap fun log =>
        log.observations.map Observation.result).take (n + 1) := by
  induction n generalizing s qs with
  | zero =>
    cases qs with
    | nil => rfl
    | cons q qs =>
      have hfirst := (visit_alone hwrites hactive q).1
      simp only [observe_cons, List.map_cons, Ledger.visitAll, List.flatMap_cons, hfirst]
      rfl
  | succ n ih =>
    cases qs with
    | nil => rfl
    | cons q qs =>
      obtain ⟨hfirst, hkept⟩ := visit_alone hwrites hactive q
      rw [observe_cons, List.take_succ_cons] at hgood
      obtain ⟨hnone, hrest⟩ := List.forall_mem_cons.1 hgood
      obtain ⟨hstill, hledger⟩ := hkept hnone
      -- the other visits find the ledger that a commit would leave behind this statement
      have hmore := ih ((access_run s q).trans hwrites) hstill hrest
      simp only [observe_cons, List.map_cons, Ledger.visitAll, List.flatMap_cons, hfirst, hledger]
      rw [List.singleton_append, List.take_succ_cons, List.take_succ_cons, hmore]

/-- If no statement fails, the commit leaves what scopes of their own leave. -/
theorem posted_alike {s : Scope} (hwrites : s.access = .readWrite) (hactive : s.aborted = false)
    {qs : List Statement} (hgood : ∀ o ∈ (s.observe qs).1, o.fault? = none) :
    (s.observe qs).2.posted = (s.posted.visitAll (qs.map Statement.alone)).2 := by
  induction qs generalizing s with
  | nil => rfl
  | cons q qs ih =>
    rw [observe_cons] at hgood ⊢
    obtain ⟨hnone, hrest⟩ := List.forall_mem_cons.1 hgood
    obtain ⟨hstill, hledger⟩ := (visit_alone hwrites hactive q).2 hnone
    rw [ih ((access_run s q).trans hwrites) hstill hrest, ← hledger]
    rfl

end Scope

namespace Ledger

/-- Many statements in one scope for writing simulate each of them in a scope of its own, for
reading if it is a look-up, that is committed at once. As long as none of the first `n` statements
has failed, the first `n + 1` have the same answers. If none fails at all, the commit succeeds and
leaves the same ledger: the same accounts, and the same journal with the same numbers. -/
theorem scope_simulates_single_statements (l : Ledger) (qs : List Statement) :
    let batch := l.visit { access := .readWrite, statements := qs, closing := .commit }
    let single := l.visitAll (qs.map Statement.alone)
    (∀ n, (∀ o ∈ batch.1.observations.take n, o.fault? = none) →
      (batch.1.observations.map Scope.Observation.result).take (n + 1) =
        (single.1.flatMap fun log => log.observations.map Scope.Observation.result).take (n + 1)) ∧
    ((∀ o ∈ batch.1.observations, o.fault? = none) →
      batch.1.ending = .ok () ∧ batch.2 = single.2) := by
  intro batch single
  have hstart : (Scope.begin l .readWrite).posted = l := Scope.posted_begin l .readWrite
  constructor
  · intro n hgood
    have halike := Scope.results_alike (s := Scope.begin l .readWrite) rfl rfl hgood
    rw [hstart] at halike
    exact halike
  · intro hgood
    have halike := Scope.posted_alike (s := Scope.begin l .readWrite) rfl rfl hgood
    have hactive := (Scope.active_observe_iff (s := Scope.begin l .readWrite) rfl qs).2 hgood
    have hcommit := Scope.commit_of_active hactive
    rw [hstart] at halike
    refine ⟨congrArg Prod.fst hcommit, ?_⟩
    exact (congrArg Prod.snd hcommit).trans halike

/-- Six are lent, and a part of them is given back. -/
def lendAndReturn : List Statement := [
  .transfer ⟨1, 2, Decimal.ofParts 6 0, "lend"⟩,
  .balance 2,
  .transfer ⟨2, 1, Decimal.ofParts 25 1, "return"⟩,
  .account 1]

theorem lendAndReturn_one_by_one :
    let batch := tenAndNothing.visit
      { access := .readWrite, statements := lendAndReturn, closing := .commit }
    let single := tenAndNothing.visitAll (lendAndReturn.map Statement.alone)
    (∀ o ∈ batch.1.observations, o.fault? = none) ∧
    batch.2.journal.map JournalEntry.number = [1, 2] ∧
    batch.2.accounts.map Account.balance = [Decimal.ofParts 650 2, Decimal.ofParts 350 2] ∧
    (batch.1.observations.map Scope.Observation.result).take 4 =
      (single.1.flatMap fun log => log.observations.map Scope.Observation.result).take 4 ∧
    batch.1.ending = .ok () ∧ batch.2 = single.2 := by
  intro batch single
  have hgood : ∀ o ∈ batch.1.observations, o.fault? = none := by decide +kernel
  have hnumbers : batch.2.journal.map JournalEntry.number = [1, 2] := by decide +kernel
  have hbalances : batch.2.accounts.map Account.balance =
      [Decimal.ofParts 650 2, Decimal.ofParts 350 2] := by
    decide +kernel
  obtain ⟨hanswers, hledger⟩ := scope_simulates_single_statements tenAndNothing lendAndReturn
  have hfirst := hanswers 3 fun o ho => hgood o (List.mem_of_mem_take ho)
  exact ⟨hgood, hnumbers, hbalances, hfirst, hledger hgood⟩

end Ledger

end TransferDesk
