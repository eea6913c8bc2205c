import TransferDesk.Proofs.Decimal.Value
import TransferDesk.Proofs.Visit
/-!
# What a scope leaves behind

A scope is aborted as soon as a statement has failed in it, and for no other reason
(`aborted_observe_iff`). From then on it refuses every look-up, every transfer and the commit
(`refused_after_fault`). While it is not aborted, a commit would post what is staged
(`Scope.posted`), and in a scope for reading nothing ever is (`posted_of_readOnly`).

`Ledger.visit_leaves_no_trace` puts this together: a ledger is changed by nothing but a commit in a
scope for writing in which every statement has succeeded.
-/

namespace TransferDesk

namespace Scope

/-! ## Faults of statements -/

theorem Observation.fault?_eq_none_iff {o : Observation} :
    o.fault? = none ↔ ∃ a, o.answer = .ok a := by
  unfold fault?
  cases o.answer <;> simp

theorem Observation.fault?_eq_some_iff {o : Observation} {fault : Fault} :
    o.fault? = some fault ↔ o.answer = .error fault := by
  unfold fault?
  cases o.answer <;> simp

/-- What is observed when a statement is run. -/
def observation (s : Scope) (q : Statement) : Observation :=
  ⟨q, (s.run q).1, (s.run q).2.isDirty⟩

theorem observe_cons (s : Scope) (q : Statement) (qs : List Statement) :
    s.observe (q :: qs) =
      (s.observation q :: ((s.run q).2.observe qs).1, ((s.run q).2.observe qs).2) :=
  rfl

/-- Answers that are the same fail alike. -/
theorem fault?_congr {s t : Scope} {q : Statement} (h : (s.run q).1 = (t.run q).1) :
    (s.observation q).fault? = (t.observation q).fault? := by
  refine Option.ext fun fault => ?_
  rw [Observation.fault?_eq_some_iff, Observation.fault?_eq_some_iff]
  change (s.run q).1 = .error fault ↔ (t.run q).1 = .error fault
  rw [h]

theorem run_transfer_of_ok {s after : Scope} {order : TransferOrder} (h : s.aborted = false)
    (hstage : s.stage order = .ok after) : s.run (.transfer order) = (.ok (), after) := by
  simp [run, h, hstage]

theorem run_transfer_of_error {s : Scope} {order : TransferOrder} {fault : Fault}
    (h : s.aborted = false) (hstage : s.stage order = .error fault) :
    s.run (.transfer order) = (.error fault, { s with aborted := true }) := by
  simp [run, h, hstage]

/-- Nothing changes an aborted scope. It says what it may do, and refuses everything else. -/
theorem run_of_aborted {s : Scope} (h : s.aborted = true) (q : Statement) :
    (s.run q).2 = s ∧ (q ≠ .access → (s.observation q).fault? = some .aborted) := by
  cases q with
  | access => exact ⟨rfl, fun hq => absurd rfl hq⟩
  | account id | balance id | transfer order => simp [Observation.fault?, observation, run, h]

/-- A scope is aborted by a statement that fails. -/
theorem aborted_run_iff (s : Scope) (q : Statement) :
    (s.run q).2.aborted = true ↔ s.aborted = true ∨ (s.observation q).fault? ≠ none := by
  cases habort : s.aborted with
  | true =>
    -- an aborted scope stays as it is
    simp [(run_of_aborted habort q).1, habort]
  | false =>
    cases q with
    | access | account id | balance id => simp [Observation.fault?, observation, run, habort]
    | transfer order =>
      cases hstage : s.stage order with
      | error fault =>
        simp [Observation.fault?, observation, run_transfer_of_error habort hstage]
      | ok after =>
        obtain ⟨source, target, p, -, rfl⟩ := stage_eq_ok_iff.1 hstage
        simp [Observation.fault?, observation, run_transfer_of_ok habort hstage, staging, habort]

theorem active_run_iff {s : Scope} (h : s.aborted = false) (q : Statement) :
    (s.run q).2.aborted = false ↔ (s.observation q).fault? = none := by
  rw [← Bool.not_eq_true, aborted_run_iff]
  simp [h]

/-! ## Runs of statements -/

theorem observe_of_aborted {s : Scope} (h : s.aborted = true) (qs : List Statement) :
    (s.observe qs).2 = s ∧
      ∀ o ∈ (s.observe qs).1, o.statement ≠ .access → o.fault? = some .aborted := by
  induction qs with
  | nil => exact ⟨rfl, fun o ho => absurd ho List.not_mem_nil⟩
  | cons q qs ih =>
    obtain ⟨hsame, hrefused⟩ := run_of_aborted h q
    rw [observe_cons, hsame]
    refine ⟨ih.1, ?_⟩
    intro o ho
    rcases List.mem_cons.1 ho with rfl | ho
    · exact hrefused
    · exact ih.2 o ho

/-- A scope is aborted if and only if a statement has failed in it. -/
theorem aborted_observe_iff (s : Scope) (qs : List Statement) :
    (s.observe qs).2.aborted = true ↔
      s.aborted = true ∨ ∃ o ∈ (s.observe qs).1, o.fault? ≠ none := by
  induction qs generalizing s with
  | nil => simp [observe]
  | cons q qs ih =>
    rw [observe_cons, ih, aborted_run_iff, or_assoc]
    simp only [List.mem_cons, exists_eq_or_imp]

theorem active_observe_iff {s : Scope} (h : s.aborted = false) (qs : List Statement) :
    (s.observe qs).2.aborted = false ↔ ∀ o ∈ (s.observe qs).1, o.fault? = none := by
  rw [← Bool.not_eq_true, aborted_observe_iff]
  simp [h]

/-- Behind a statement that has failed everything is refused. -/
theorem refused_after_fault {s : Scope} {qs : List Statement} {earlier later : List Observation}
    {failed : Observation} (hsplit : (s.observe qs).1 = earlier ++ failed :: later)
    (hfailed : failed.fault? ≠ none) :
    ∀ o ∈ later, o.statement ≠ .access → o.fault? = some .aborted := by
  induction earlier generalizing s qs with
  | nil =>
    cases qs with
    | nil => simp [observe] at hsplit
    | cons q qs =>
      rw [observe_cons] at hsplit
      obtain ⟨rfl, rfl⟩ := List.cons.inj hsplit
      -- the first statement has failed, so the others find the scope aborted
      exact (observe_of_aborted ((aborted_run_iff s q).2 (Or.inr hfailed)) qs).2
  | cons o earlier ih =>
    cases qs with
    | nil => simp [observe] at hsplit
    | cons q qs =>
      rw [observe_cons] at hsplit
      exact ih (List.cons.inj hsplit).2

/-! ## Commits -/

/-- The ledger with all that is staged, as a commit would leave it. -/
def posted (s : Scope) : Ledger :=
  s.ledger.post s.balances s.orders

theorem posted_begin (l : Ledger) (access : Access) : (begin l access).posted = l :=
  l.post_nil

theorem commit_of_active {s : Scope} (h : s.aborted = false) : s.commit = (.ok (), s.posted) := by
  unfold commit
  rw [if_neg]
  · rfl
  · simp [h]

theorem commit_of_aborted {s : Scope} (h : s.aborted = true) :
    s.commit = (.error .aborted, s.ledger) := by
  unfold commit
  rw [if_pos h]

/-- Aborted or not, a commit with nothing to post changes nothing. -/
theorem commit_of_posted_eq {s : Scope} (h : s.posted = s.ledger) : s.commit.2 = s.ledger := by
  cases habort : s.aborted with
  | true => rw [commit_of_aborted habort]
  | false => rw [commit_of_active habort, h]

/-- No statement changes what the scope may do. -/
theorem access_run (s : Scope) (q : Statement) : (s.run q).2.access = s.access := by
  rcases run_cases s q with hs | hs | ⟨order, source, target, p, -, -, hs⟩ <;> rw [hs]
  rfl

/-- In a scope for reading nothing is staged. -/
theorem posted_of_readOnly {s : Scope} (h : s.access = .readOnly) (qs : List Statement) :
    (s.observe qs).2.posted = s.posted := by
  induction qs generalizing s with
  | nil => rfl
  | cons q qs ih =>
    rw [observe_cons, ih ((access_run s q).trans h)]
    rcases run_cases s q with hs | hs | ⟨order, source, target, p, -, ht, -⟩
    · rw [hs]
    · rw [hs]
      rfl
    · -- only a scope for writing takes a transfer
      have hwrites := ht.writes
      rw [h] at hwrites
      exact absurd hwrites (by decide)

end Scope

namespace Ledger

/-- A commit is refused if and only if a statement has failed. -/
theorem ending_eq_ok_iff (l : Ledger) (v : Visit) :
    (l.visit v).1.ending = .ok () ↔
      v.closing ≠ .commit ∨ ∀ o ∈ (l.visit v).1.observations, o.fault? = none := by
  change ((l.openScope v).close v.closing).1 = .ok () ↔
    v.closing ≠ .commit ∨ ∀ o ∈ ((Scope.begin l v.access).observe v.statements).1, o.fault? = none
  rw [← Scope.active_observe_iff rfl]
  change _ ↔ _ ∨ (l.openScope v).aborted = false
  cases v.closing with
  | rollback => simp [Scope.close]
  | abandon => simp [Scope.close]
  | commit =>
    cases habort : (l.openScope v).aborted with
    | true => simp [Scope.close, Scope.commit_of_aborted habort]
    | false => simp [Scope.close, Scope.commit_of_active habort]

/-- Failed and unfinished scopes leave no trace. Take any visit to a ledger.

* While the scope is open, the ledger is what it was.
* Once a statement has failed, every later look-up and transfer is refused because the scope is
  aborted, and so is the commit. The commit is refused for no other reason.
* The ledger is what it was before the visit, whatever has succeeded in it, if the scope is ended by
  anything but a commit, or if the commit is refused, or if the scope was only for reading. -/
theorem visit_leaves_no_trace (l : Ledger) (v : Visit) :
    (l.openScope v).ledger = l ∧
    (∀ earlier failed later, (l.visit v).1.observations = earlier ++ failed :: later →
      failed.fault? ≠ none →
      (∀ o ∈ later, o.statement ≠ .access → o.fault? = some .aborted) ∧
      (l.openScope v).commit = (.error .aborted, l)) ∧
    ((l.visit v).1.ending = .ok () ↔
      v.closing ≠ .commit ∨ ∀ o ∈ (l.visit v).1.observations, o.fault? = none) ∧
    (v.closing ≠ .commit ∨ (l.visit v).1.ending ≠ .ok () ∨ v.access = .readOnly →
      (l.visit v).2 = l) := by
  have hledger : (l.openScope v).ledger = l := Scope.ledger_observe _ _
  refine ⟨hledger, ?_, l.ending_eq_ok_iff v, ?_⟩
  · intro earlier failed later hsplit hfailed
    refine ⟨Scope.refused_after_fault hsplit hfailed, ?_⟩
    have habort : (l.openScope v).aborted = true := by
      refine (Scope.aborted_observe_iff _ _).2 (Or.inr ⟨failed, ?_, hfailed⟩)
      change failed ∈ (l.visit v).1.observations
      rw [hsplit]
      exact List.mem_append_right earlier List.mem_cons_self
    rw [Scope.commit_of_aborted habort, hledger]
  · intro hends
    change ((l.openScope v).close v.closing).2 = l
    change _ ∨ ((l.openScope v).close v.closing).1 ≠ .ok () ∨ _ at hends
    cases hclosing : v.closing with
    | rollback => exact hledger
    | abandon => exact hledger
    | commit =>
      rw [hclosing] at hends
      rcases hends with hother | hrefused | hreads
      · exact absurd rfl hother
      · have habort : (l.openScope v).aborted = true := by
          by_contra hactive
          rw [Bool.not_eq_true] at hactive
          rw [Scope.close, Scope.commit_of_active hactive] at hrefused
          exact hrefused rfl
        rw [Scope.close, Scope.commit_of_aborted habort]
        exact hledger
      · -- whatever was asked, nothing is staged
        have hposted : (l.openScope v).posted = l :=
          (Scope.posted_of_readOnly (s := Scope.begin l v.access) hreads v.statements).trans
            (Scope.posted_begin l v.access)
        exact (Scope.commit_of_posted_eq (hposted.trans hledger.symm)).trans hledger

/-- A ledger with an account that holds ten and one that holds nothing. -/
def tenAndNothing : Ledger where
  accounts := [
    { id := 1, balance := Decimal.ofParts 10 0, currency := "USD" },
    { id := 2, balance := Decimal.ofParts 0 0, currency := "USD" }]
  ascending := by decide

/-- A visit that moves six twice, which is covered only once, and looks at the target then. -/
def sixTwice : Visit where
  access := .readWrite
  statements := [
    .transfer ⟨1, 2, Decimal.ofParts 6 0, "first"⟩,
    .transfer ⟨1, 2, Decimal.ofParts 6 0, "second"⟩,
    .balance 2]
  closing := .commit

theorem sixTwice_leaves_no_trace :
    (tenAndNothing.visit sixTwice).1.observations.map Scope.Observation.fault? =
      [none, some (.insufficientFunds 1 (Decimal.ofParts 400 2) (Decimal.ofParts 600 2)),
        some .aborted] ∧
    (tenAndNothing.visit sixTwice).1.ending = .error .aborted ∧
    (tenAndNothing.visit sixTwice).2 = tenAndNothing := by
  have hfaults : (tenAndNothing.visit sixTwice).1.observations.map Scope.Observation.fault? =
      [none, some (.insufficientFunds 1 (Decimal.ofParts 400 2) (Decimal.ofParts 600 2)),
        some .aborted] := by
    decide +kernel
  have hending : (tenAndNothing.visit sixTwice).1.ending = .error .aborted := by decide +kernel
  obtain ⟨-, -, -, hledger⟩ := visit_leaves_no_trace tenAndNothing sixTwice
  refine ⟨hfaults, hending, hledger (Or.inr (Or.inl ?_))⟩
  rw [hending]
  simp

end Ledger

end TransferDesk
