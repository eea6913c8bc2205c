import TransferDesk.Proofs.Scope.Endings
import TransferDesk.Turnstile
/-!
# Programs, all or nothing

Whatever a program asks of a scope, and however that depends on the answers, in the end it has run a
list of statements like any other (`Program.observe_asked`). So the scope is aborted if and only if
one of them has failed, whether or not the program took notice.

A program that goes through a free turnstile (`Turnstile.pass`) takes the hold, runs in a scope that
is committed if the program returns, and gives the hold up. `Turnstile.pass_all_or_nothing` says
what comes of it: all that was asked is in the ledger, or the ledger is what it was, and nobody
holds it either way.
-/

namespace TransferDesk

/-! ## What a program asks -/

namespace Program

variable {α : Type}

/-- The statements that a program asks in a scope. -/
def asked (program : Program α) (s : Scope) : List Statement :=
  (program.observations s).map Scope.Observation.statement

/-- A program runs the statements that it asks, one after the other. -/
theorem observe_asked (program : Program α) (s : Scope) :
    s.observe (program.asked s) = (program.observations s, (program.run s).2) := by
  induction program generalizing s with
  | done a => rfl
  | fail fault => rfl
  | step q next ih =>
    change s.observe (q :: (next (s.run q).1).asked (s.run q).2) = _
    rw [Scope.observe_cons, ih]
    rfl

/-- A program leaves a scope aborted if and only if a statement has failed that it has asked. -/
theorem active_run_iff (program : Program α) {s : Scope} (h : s.aborted = false) :
    (program.run s).2.aborted = false ↔ ∀ o ∈ program.observations s, o.fault? = none := by
  have hiff := Scope.active_observe_iff h (program.asked s)
  rw [observe_asked] at hiff
  exact hiff

theorem ledger_run (program : Program α) (s : Scope) : (program.run s).2.ledger = s.ledger := by
  have hsame := Scope.ledger_observe s (program.asked s)
  rw [observe_asked] at hsame
  exact hsame

theorem posted_of_readOnly (program : Program α) {s : Scope} (h : s.access = .readOnly) :
    (program.run s).2.posted = s.posted := by
  have hsame := Scope.posted_of_readOnly h (program.asked s)
  rw [observe_asked] at hsame
  exact hsame

end Program

/-! ## What is staged -/

/-- The order as it is booked, if the statement is for a transfer. -/
def Statement.booked? : Statement → Option TransferOrder
  | .transfer order => some { order with amount := order.amount.asMoney }
  | _ => none

namespace Scope

/-- A statement that succeeds stages its transfer, if it is for one. -/
theorem orders_run {s : Scope} {q : Statement} (h : (s.observation q).fault? = none) :
    (s.run q).2.orders = s.orders ++ q.booked?.toList := by
  cases q with
  | access | account id | balance id => exact (List.append_nil s.orders).symm
  | transfer order =>
    obtain ⟨answer, hanswer⟩ := Observation.fault?_eq_none_iff.1 h
    have hrun : s.run (.transfer order) = (.ok (), (s.run (.transfer order)).2) :=
      Prod.ext hanswer rfl
    obtain ⟨source, target, p, ht, hafter⟩ := run_transfer_eq_ok hrun
    rw [hafter]
    change s.orders ++ [{ order with amount := p.amount }] = _
    rw [ht.settled.booked]
    rfl

/-- If no statement fails, every transfer is staged, in order. -/
theorem orders_observe {s : Scope} {qs : List Statement}
    (h : ∀ o ∈ (s.observe qs).1, o.fault? = none) :
    (s.observe qs).2.orders = s.orders ++ qs.filterMap Statement.booked? := by
  induction qs generalizing s with
  | nil => exact (List.append_nil s.orders).symm
  | cons q qs ih =>
    rw [observe_cons] at h ⊢
    obtain ⟨hfirst, hrest⟩ := List.forall_mem_cons.1 h
    rw [ih hrest, orders_run hfirst, List.append_assoc]
    cases hbooked : q.booked? with
    | none => rw [List.filterMap_cons_none hbooked]; rfl
    | some order => rw [List.filterMap_cons_some hbooked]; rfl

end Scope

/-! ## Programs in scopes of their own -/

namespace Ledger

variable {α : Type} {l : Ledger} {access : Access} {program : Program α}

theorem execute_of_fail {fault : Fault}
    (h : (program.run (Scope.begin l access)).1 = .error fault) :
    l.execute access program = (.error fault, l) := by
  unfold execute
  split
  · rename_i found s hrun
    rw [hrun] at h
    obtain rfl := Except.error.inj h
    rfl
  · rename_i a s hrun
    rw [hrun] at h
    simp at h

theorem execute_of_done {v : α} (h : (program.run (Scope.begin l access)).1 = .ok v) :
    l.execute access program =
      ((program.run (Scope.begin l access)).2.commit.1.map fun _ => v,
        (program.run (Scope.begin l access)).2.commit.2) := by
  unfold execute
  split
  · rename_i found s hrun
    rw [hrun] at h
    simp at h
  · rename_i a s hrun
    rw [hrun] at h ⊢
    obtain rfl := Except.ok.inj h
    rcases s.commit with ⟨_ | _, after⟩ <;> rfl

/-- A program that is only for reading leaves the ledger as it is, however it ends. -/
theorem execute_readOnly (l : Ledger) (program : Program α) :
    (l.execute .readOnly program).2 = l := by
  cases hreturned : (program.run (Scope.begin l .readOnly)).1 with
  | error fault => rw [execute_of_fail hreturned]
  | ok v =>
    rw [execute_of_done hreturned]
    change (program.run (Scope.begin l .readOnly)).2.commit.2 = l
    have hledger : (program.run (Scope.begin l .readOnly)).2.ledger = l := program.ledger_run _
    have hposted : (program.run (Scope.begin l .readOnly)).2.posted = l :=
      (program.posted_of_readOnly rfl).trans (Scope.posted_begin l .readOnly)
    exact (Scope.commit_of_posted_eq (hposted.trans hledger.symm)).trans hledger

end Ledger

/-! ## Passes -/

namespace Turnstile

variable {α : Type}

/-- Takes the hold, runs a program in a scope that is opened through it, and gives the hold up.
Nothing comes of it if somebody else holds the ledger. -/
def pass (t : Turnstile) (access : Access) (program : Program α) :
    Option (Except Fault α) × Turnstile :=
  match t.answer .lock with
  | (.granted, held) =>
    let (result, ledger) := held.ledger.execute access program
    (some result, ({ held with ledger }.answer .unlock).2)
  | (_, t) => (none, t)

/-- To ask a turnstile to execute a program is to pass it. -/
theorem answer_execute (t : Turnstile) (access : Access) (program : Program Unit) :
    t.answer (.execute access program) =
      match t.pass access program with
      | (some result, after) =>
        (.executed (program.observations (Scope.begin t.ledger access)) result, after)
      | (none, after) => (.blocked, after) := by
  obtain ⟨ledger, held⟩ := t
  cases held <;> rfl

theorem pass_of_free {t : Turnstile} (h : t.held = false) (access : Access) (program : Program α) :
    t.pass access program =
      (some (t.ledger.execute access program).1,
        { ledger := (t.ledger.execute access program).2 }) := by
  unfold pass answer
  rw [h]
  rfl

/-- A program passes a free turnstile all or nothing, whatever it asks, whatever it makes of the
answers and whatever it returns in the end.

* It is answered with `v` if and only if it returns `v` and no statement has failed. Then the ledger
  shows what the scope has shown, and the journal has the transfers that were asked, in order.
* If it fails, it is answered with its fault. If it returns although a statement has failed, it is
  answered that the scope is aborted. Either way the ledger is what it was.
* A program that is only for reading leaves the ledger as it was, however it ends.
* Nobody holds the ledger afterwards. -/
theorem pass_all_or_nothing {t : Turnstile} (hfree : t.held = false) (access : Access)
    (program : Program α) :
    let scope := Scope.begin t.ledger access
    let returned := (program.run scope).1
    let last := (program.run scope).2
    let observed := program.observations scope
    ∃ result after, t.pass access program = (some result, { ledger := after, held := false }) ∧
      (∀ v, result = .ok v ↔ returned = .ok v ∧ ∀ o ∈ observed, o.fault? = none) ∧
      (∀ v, result = .ok v →
        after.accounts = last.shown ∧
        after.journal = t.ledger.journal ++
          Ledger.entries t.ledger.nextNumber ((program.asked scope).filterMap Statement.booked?) ∧
        after.nextNumber = t.ledger.nextNumber +
          ((program.asked scope).filterMap Statement.booked?).length) ∧
      (∀ fault, returned = .error fault → result = .error fault ∧ after = t.ledger) ∧
      (∀ v, returned = .ok v → (∃ o ∈ observed, o.fault? ≠ none) →
        result = .error .aborted ∧ after = t.ledger) ∧
      (access = .readOnly → after = t.ledger) := by
  intro scope returned last observed
  have hactive := program.active_run_iff (s := scope) rfl
  have hledger : last.ledger = t.ledger := program.ledger_run scope
  have hreads : access = .readOnly → (t.ledger.execute access program).2 = t.ledger := by
    rintro rfl
    exact t.ledger.execute_readOnly program
  refine ⟨_, _, pass_of_free hfree access program, ?_⟩
  cases hreturned : returned with
  | error fault =>
    -- the scope is given up
    rw [Ledger.execute_of_fail hreturned]
    simp
  | ok v =>
    rw [Ledger.execute_of_done hreturned] at hreads ⊢
    change (∀ w, last.commit.1.map (fun _ => v) = .ok w ↔ _) ∧ _
    cases habort : last.aborted with
    | true =>
      -- a statement has failed, and if the program took no notice, the commit does
      have hfailed : ¬ ∀ o ∈ observed, o.fault? = none := by
        rw [← hactive]
        simpa using habort
      rw [Scope.commit_of_aborted habort]
      simp [Except.map, hledger, hfailed]
    | false =>
      -- no statement has failed, so the commit posts what was asked
      have hgood : ∀ o ∈ observed, o.fault? = none := hactive.1 habort
      have horders : last.orders = (program.asked scope).filterMap Statement.booked? := by
        have hasked := @Scope.orders_observe scope (program.asked scope)
        rw [program.observe_asked] at hasked
        exact hasked hgood
      rw [Scope.commit_of_active habort] at hreads ⊢
      refine ⟨?_, ?_, ?_, ?_, hreads⟩
      · intro w
        constructor
        · intro hok
          exact ⟨hok, hgood⟩
        · exact And.left
      · intro w _
        rw [← horders, ← hledger]
        exact ⟨rfl, rfl, rfl⟩
      · simp
      · rintro w _ ⟨o, ho, hfault⟩
        exact absurd (hgood o ho) hfault

/-- A program that tries to move six twice and returns how often it could. -/
def sixTwiceAnyway : Program Nat :=
  .step (.transfer ⟨1, 2, Decimal.ofParts 6 0, "first"⟩) fun
    | .error _ => .done 0
    | .ok _ => .step (.transfer ⟨1, 2, Decimal.ofParts 6 0, "second"⟩) fun
      | .error _ => .done 1
      | .ok _ => .done 2

theorem sixTwiceAnyway_passes_for_nothing :
    let t : Turnstile := { ledger := Ledger.tenAndNothing }
    let scope := Scope.begin t.ledger .readWrite
    t.held = false ∧ (sixTwiceAnyway.run scope).1 = .ok 1 ∧
    (sixTwiceAnyway.run scope).2.orders.length = 1 ∧
    ∃ result after,
      t.pass .readWrite sixTwiceAnyway = (some result, { ledger := after, held := false }) ∧
      result = .error .aborted ∧ after = Ledger.tenAndNothing := by
  intro t scope
  have hreturned : (sixTwiceAnyway.run scope).1 = .ok 1 := by decide +kernel
  have hstaged : (sixTwiceAnyway.run scope).2.orders.length = 1 := by decide +kernel
  have hfailed : ∃ o ∈ sixTwiceAnyway.observations scope, o.fault? ≠ none := by decide +kernel
  obtain ⟨result, after, hpass, -, -, -, hanyway, -⟩ :=
    pass_all_or_nothing (t := t) rfl .readWrite sixTwiceAnyway
  exact ⟨rfl, hreturned, hstaged, result, after, hpass, hanyway 1 hreturned hfailed⟩

end Turnstile

end TransferDesk
