import TransferDesk.Proofs.Runs
import TransferDesk.Proofs.Scope.Programs
/-!
# The hold

The hold on a ledger is granted, and later given up. `Turnstile.Outstanding` reads from the calls
and the replies alone which grant has not been given up yet, and `Turnstile.Accounted` is the
invariant: there never is more than one, and the turnstile is held exactly if there is one.

* A program that is executed takes the hold like anybody else and gives it up however it ends
  (`Turnstile.execute_of_free`).
* A call that is blocked leaves no trace, and neither does one that asks whether the ledger is free:
  both can be left out wherever they stand (`Turnstile.answerAll_leaveOut`).

`Turnstile.hold_exclusive_and_given_up` says all of this of every sequence of calls.
-/

namespace TransferDesk

/-- How the scope of a program ends: with a commit if the program returns, and if it fails the scope
is given up. -/
def Program.closing {α : Type} (program : Program α) (s : Scope) : Closing :=
  match (program.run s).1 with
  | .ok _ => .commit
  | .error _ => .abandon

namespace Turnstile

variable {t : Turnstile} {calls : List Call} {replies : List Reply} {i j n : ℕ}

/-! ## Calls one after the other -/

theorem answerAll_eq_runAll (t : Turnstile) (calls : List Call) :
    t.answerAll calls = runAll (fun call t => t.answer call) calls t := by
  induction calls generalizing t with
  | nil => rfl
  | cons call calls ih =>
    rw [runAll_cons, ← ih]
    rfl

/-- The reply at a position is the answer to the call there, by the turnstile as the calls before
have left it. -/
theorem answerAll_at {call : Call} (h : calls[n]? = some call) (t : Turnstile) :
    (t.answerAll calls).1[n]? = some ((t.answerAll (calls.take n)).2.answer call).1 ∧
      (t.answerAll (calls.take (n + 1))).2 = ((t.answerAll (calls.take n)).2.answer call).2 := by
  simp only [answerAll_eq_runAll]
  exact runAll_at (fun call t => t.answer call) h t

/-! ## Grants that are outstanding -/

/-- The hold was granted to the call at position `i`, and no call between that and position `n` has
given it up. -/
structure Outstanding (calls : List Call) (replies : List Reply) (i n : ℕ) : Prop where
  before : i < n
  asked : calls[i]? = some .lock
  granted : replies[i]? = some .granted
  kept : ∀ k, i < k → k < n → calls[k]? ≠ some .unlock

/-- What one more call does to the grants that are outstanding. -/
theorem outstanding_succ_iff {call : Call} {reply : Reply} (hcall : calls[n]? = some call)
    (hreply : replies[n]? = some reply) :
    Outstanding calls replies i (n + 1) ↔
      Outstanding calls replies i n ∧ call ≠ .unlock ∨
        i = n ∧ call = .lock ∧ reply = .granted := by
  constructor
  · rintro ⟨hbefore, hasked, hgranted, hkept⟩
    rcases Nat.lt_succ_iff_lt_or_eq.1 hbefore with hless | rfl
    · left
      refine ⟨⟨hless, hasked, hgranted, fun k hik hkn => hkept k hik (Nat.lt_succ_of_lt hkn)⟩, ?_⟩
      rintro rfl
      exact hkept n hless (Nat.lt_succ_self n) hcall
    · right
      rw [hcall] at hasked
      rw [hreply] at hgranted
      exact ⟨rfl, Option.some.inj hasked, Option.some.inj hgranted⟩
  · rintro (⟨h, hother⟩ | ⟨rfl, rfl, rfl⟩)
    · refine ⟨Nat.lt_succ_of_lt h.before, h.asked, h.granted, ?_⟩
      intro k hik hkn
      rcases Nat.lt_succ_iff_lt_or_eq.1 hkn with hless | rfl
      · exact h.kept k hik hless
      · rw [hcall]
        exact fun heq => hother (Option.some.inj heq)
    · exact ⟨Nat.lt_succ_self i, hcall, hreply, fun k hik hki => absurd hki (by omega)⟩

/-- A call that neither takes the hold nor gives it up leaves the turnstile held or free, as it
was. -/
theorem held_answer {call : Call} (hlock : call ≠ .lock) (hunlock : call ≠ .unlock)
    (t : Turnstile) :
    (t.answer call).2.held = t.held := by
  cases call with
  | lock => exact absurd rfl hlock
  | unlock => exact absurd rfl hunlock
  | tryLock => rfl
  | journal | scope | execute => cases hheld : t.held <;> simp [answer, hheld]

/-- The turnstile is held exactly if a grant is outstanding before position `n`, and not more than
one is. -/
structure Accounted (calls : List Call) (replies : List Reply) (n : ℕ) (t : Turnstile) : Prop where
  held_iff : t.held = true ↔ ∃ i, Outstanding calls replies i n
  exclusive : ∀ i j, Outstanding calls replies i n → Outstanding calls replies j n → i = j

namespace Accounted

theorem start (l : Ledger) (calls : List Call) (replies : List Reply) :
    Accounted calls replies 0 { ledger := l } := by
  have hnone : ∀ i, ¬ Outstanding calls replies i 0 := fun i h => Nat.not_lt_zero i h.before
  constructor
  · simp [hnone]
  · intro i j hi
    exact absurd hi (hnone i)

theorem not_outstanding (h : Accounted calls replies n t) (hfree : t.held = false) (i : ℕ) :
    ¬ Outstanding calls replies i n := by
  intro hi
  have hheld := h.held_iff.2 ⟨i, hi⟩
  rw [hfree] at hheld
  exact Bool.noConfusion hheld

theorem step (h : Accounted calls replies n t) {call : Call} (hcall : calls[n]? = some call)
    (hreply : replies[n]? = some (t.answer call).1) :
    Accounted calls replies (n + 1) (t.answer call).2 := by
  have hsucc (i : ℕ) := outstanding_succ_iff (i := i) hcall hreply
  by_cases hlock : call = .lock
  · subst hlock
    cases hfree : t.held with
    | true =>
      -- the call is blocked, and the grants are those that there were
      rw [show t.answer .lock = (.blocked, t) by simp [answer, hfree]] at hsucc ⊢
      simp only [ne_eq, reduceCtorEq, not_false_eq_true, and_true, and_false, or_false] at hsucc
      constructor
      · simp only [hsucc]
        exact h.held_iff
      · simp only [hsucc]
        exact h.exclusive
    | false =>
      -- there were no grants, and now there is this one
      rw [show t.answer .lock = (.granted, { t with held := true }) by simp [answer, hfree]]
        at hsucc ⊢
      simp only [h.not_outstanding hfree, false_and, and_true, false_or] at hsucc
      constructor
      · simp [hsucc]
      · intro i j hi hj
        rw [(hsucc i).1 hi, (hsucc j).1 hj]
  · by_cases hunlock : call = .unlock
    · -- whatever was granted is given up
      subst hunlock
      simp only [ne_eq, not_true_eq_false, and_false, reduceCtorEq, false_and, or_false] at hsucc
      constructor
      · simp [hsucc, answer]
      · intro i j hi
        exact absurd hi (hsucc i).1
    · simp only [ne_eq, hlock, hunlock, not_false_eq_true, and_true, false_and, and_false,
        or_false] at hsucc
      constructor
      · simp only [hsucc]
        rw [held_answer hlock hunlock]
        exact h.held_iff
      · simp only [hsucc]
        exact h.exclusive

theorem run (l : Ledger) (calls : List Call) (hn : n ≤ calls.length) :
    Accounted calls (answerAll { ledger := l } calls).1 n
      (answerAll { ledger := l } (calls.take n)).2 := by
  induction n with
  | zero => exact start l calls _
  | succ n ih =>
    have hcall : calls[n]? = some calls[n] := List.getElem?_eq_getElem hn
    obtain ⟨hreply, hafter⟩ := answerAll_at hcall { ledger := l }
    rw [hafter]
    exact (ih (Nat.le_of_succ_le hn)).step hcall hreply

end Accounted

/-! ## Executions -/

/-- A program that a free turnstile executes takes the hold, runs its statements in a scope through
it, ends the scope and gives the hold up, whether it returns, fails or has its commit refused. -/
theorem execute_of_free (hfree : t.held = false) (access : Access) (program : Program Unit) :
    let scope := Scope.begin t.ledger access
    ∃ ending after,
      t.answer (.execute access program) =
        (.executed (program.observations scope) ((program.run scope).1.bind fun _ => ending),
          after) ∧
      t.answerAll [.lock, .scope access (program.asked scope) (program.closing scope), .unlock] =
        ([.granted, .scope (program.observations scope) ending, .granted], after) ∧
      after.held = false := by
  intro scope
  have hscope : (Scope.begin t.ledger access).observe (program.asked scope) =
      (program.observations scope, (program.run scope).2) := program.observe_asked scope
  refine ⟨((program.run scope).2.close (program.closing scope)).1,
    { ledger := ((program.run scope).2.close (program.closing scope)).2 }, ?_, ?_, rfl⟩
  · have hledger : (program.run scope).2.ledger = t.ledger := program.ledger_run scope
    simp only [answer, hfree, Bool.false_eq_true, if_false, Program.closing]
    cases hreturned : (program.run scope).1 with
    | error fault =>
      -- the scope is given up, which leaves the ledger that it was opened on
      rw [Ledger.execute_of_fail hreturned]
      simp only [Scope.close, hledger]
      rfl
    | ok v =>
      -- the commit decides, and it may be refused
      rw [Ledger.execute_of_done hreturned]
      cases hending : (program.run scope).2.commit.1 <;>
        simp [Scope.close, scope, Except.map, Except.bind, hending]
  · -- the same scope, one call after the other
    simp [answerAll, answer, hfree, hscope]

/-! ## Calls that leave no trace -/

/-- A call that is blocked, or that only asks whether the ledger is free, changes nothing. -/
theorem answer_idle {call : Call} (h : (t.answer call).1 = .blocked ∨ call = .tryLock) :
    (t.answer call).2 = t := by
  rcases h with hblocked | rfl
  · cases call with
    | lock | execute =>
      -- only what finds the turnstile held is blocked
      cases hheld : t.held with
      | true => simp [answer, hheld]
      | false => simp [answer, hheld] at hblocked
    | unlock | tryLock => simp [answer] at hblocked
    | journal | scope => cases hheld : t.held <;> simp [answer, hheld] at hblocked
  · rfl

/-- Calls that were blocked, and those that asked whether the ledger is free, can be left out. -/
theorem answerAll_leaveOut {omitted : Finset ℕ} (calls : List Call) (t : Turnstile)
    (h : ∀ i ∈ omitted, (t.answerAll calls).1[i]? = some .blocked ∨ calls[i]? = some .tryLock) :
    t.answerAll (leaveOut omitted calls) =
      (leaveOut omitted (t.answerAll calls).1, (t.answerAll calls).2) := by
  simp only [answerAll_eq_runAll] at h ⊢
  apply runAll_leaveOut (fun call reply => reply = .blocked ∨ call = .tryLock)
    fun call t hidle => answer_idle hidle
  intro i call reply hi hcall hreply
  rcases h i hi with hblocked | hasked
  · rw [hreply] at hblocked
    exact .inl (Option.some.inj hblocked)
  · rw [hcall] at hasked
    exact .inr (Option.some.inj hasked)

/-! ## Sequences of calls -/

/-- How a call is answered, if a grant is outstanding and if none is. `before` and `after` are the
turnstile before and after the call. -/
structure Answered (outstanding : Prop) (before : Turnstile) (call : Call) (reply : Reply)
    (after : Turnstile) : Prop where
  lock : call = .lock → (reply = .blocked ↔ outstanding) ∧ (reply = .granted ↔ ¬ outstanding)
  tryLock : call = .tryLock → (reply = .free false ↔ outstanding) ∧
    (reply = .free true ↔ ¬ outstanding)
  throughHold : (call = .journal ∨ ∃ access statements closing, call =
    .scope access statements closing) →
    (reply = .notHeld ↔ ¬ outstanding)
  blocked : reply = .blocked → after = before
  execute : ∀ access program, call = .execute access program → (reply = .blocked ↔ outstanding)
  /-- A program that is executed takes the hold, runs in a scope through it, and gives it up. -/
  executed : ∀ access program, call = .execute access program → reply ≠ .blocked →
    let scope := Scope.begin before.ledger access
    ∃ ending,
      reply = .executed (program.observations scope) ((program.run scope).1.bind fun _ => ending) ∧
      before.answerAll [.lock, .scope access (program.asked scope) (program.closing scope),
        .unlock] =
        ([.granted, .scope (program.observations scope) ending, .granted], after)

theorem Accounted.answered (h : Accounted calls replies n t) (call : Call) :
    Answered (∃ i, Outstanding calls replies i n) t call (t.answer call).1 (t.answer call).2 := by
  rw [← h.held_iff]
  constructor
  · rintro rfl
    cases hheld : t.held <;> simp [answer, hheld]
  · rintro rfl
    cases hheld : t.held <;> simp [answer, hheld]
  · rintro (rfl | ⟨access, statements, closing, rfl⟩)
    · cases hheld : t.held <;> simp [answer, hheld]
    · cases hheld : t.held <;> simp [answer, hheld]
  · intro hblocked
    exact answer_idle (.inl hblocked)
  · rintro access program rfl
    cases hheld : t.held <;> simp [answer, hheld]
  · rintro access program rfl hother scope
    cases hheld : t.held with
    | true => simp [answer, hheld] at hother
    | false =>
      obtain ⟨ending, after, hexecute, hcalls, -⟩ := execute_of_free hheld access program
      refine ⟨ending, ?_, ?_⟩
      · rw [hexecute]
      · rw [hexecute]
        exact hcalls

/-- Only a free turnstile executes a program, and then it is free again. -/
theorem free_of_executed {call : Call} {observations : List Scope.Observation}
    {result : Except Fault Unit} (h : (t.answer call).1 = .executed observations result) :
    (t.answer call).2.held = false := by
  cases call with
  | lock | journal | scope => cases hheld : t.held <;> simp [answer, hheld] at h
  | unlock | tryLock => simp [answer] at h
  | execute access program =>
    cases hheld : t.held with
    | true => simp [answer, hheld] at h
    | false =>
      obtain ⟨ending, after, hexecute, -, hfree⟩ := execute_of_free hheld access program
      rw [hexecute]
      exact hfree

/-- The hold is exclusive, it is given up, and who gives up waiting for it leaves no trace. Take any
ledger and any sequence of calls to its turnstile, beginning with nobody holding it.

* At no time is more than one grant outstanding.
* Exactly while one is, whoever asks for the hold or for a program to be executed is blocked, and
  whoever asks whether the ledger is free is told that it is not. A call that is blocked leaves the
  turnstile as it is.
* Once a program has been executed, whatever came of it, the turnstile is free and no grant is
outstanding.
* If any calls that were blocked, and any that asked whether the ledger is free, are left out, all
  other calls get the reply that they got, and the ledger is the same in the end. -/
theorem hold_exclusive_and_given_up (l : Ledger) (calls : List Call) :
    let t : Turnstile := { ledger := l }
    let replies := (t.answerAll calls).1
    (∀ n ≤ calls.length, ∀ i j,
      Outstanding calls replies i n → Outstanding calls replies j n → i = j) ∧
    (∀ n call, calls[n]? = some call →
      let before := (t.answerAll (calls.take n)).2
      let after := (t.answerAll (calls.take (n + 1))).2
      ∃ reply, replies[n]? = some reply ∧
        Answered (∃ i, Outstanding calls replies i n) before call reply after ∧
        (∀ observations result, reply = .executed observations result →
          after.held = false ∧ ∀ i, ¬ Outstanding calls replies i (n + 1))) ∧
    ∀ omitted : Finset ℕ,
      (∀ i ∈ omitted, replies[i]? = some .blocked ∨ calls[i]? = some .tryLock) →
      t.answerAll (leaveOut omitted calls) = (leaveOut omitted replies, (t.answerAll calls).2) := by
  intro t replies
  refine ⟨?_, ?_, ?_⟩
  · intro n hn
    exact (Accounted.run l calls hn).exclusive
  · intro n call hcall before after
    obtain ⟨hn, -⟩ := List.getElem?_eq_some_iff.1 hcall
    have hbefore : Accounted calls replies n before := Accounted.run l calls hn.le
    obtain ⟨hreply, hafter⟩ := answerAll_at hcall t
    change after = (before.answer call).2 at hafter
    refine ⟨(before.answer call).1, hreply, ?_, ?_⟩
    · rw [hafter]
      exact hbefore.answered call
    · intro observations result hexecuted
      have hfree := free_of_executed hexecuted
      rw [hafter]
      exact ⟨hfree, (hbefore.step hcall hreply).not_outstanding hfree⟩
  · intro omitted homitted
    exact answerAll_leaveOut calls t homitted

/-- While the first caller holds the ledger, a second one waits in vain. A program comes after that
whose second statement fails, which it does not notice, and then the hold is asked for again. -/
def oneWaitsInVain : List Call :=
  [.lock, .execute .readWrite (.strict [.transfer ⟨1, 2, Decimal.ofParts 5 0, "in vain"⟩]),
    .tryLock, .scope .readWrite [.transfer ⟨1, 2, Decimal.ofParts 6 0, "first"⟩] .commit, .unlock,
    .execute .readWrite (.lenient [.transfer ⟨1, 2, Decimal.ofParts 3 0, "second"⟩,
      .transfer ⟨1, 2, Decimal.ofParts 3 0, "third"⟩]), .lock]

theorem oneWaitsInVain_leaves_no_trace :
    let t : Turnstile := { ledger := Ledger.tenAndNothing }
    let replies := (t.answerAll oneWaitsInVain).1
    (∃ seen ending observations result, replies =
      [.granted, .blocked, .free false, .scope seen ending, .granted,
        .executed observations result, .granted] ∧ result = .error .aborted) ∧
    t.answerAll (leaveOut {1, 2} oneWaitsInVain) =
      (leaveOut {1, 2} replies, (t.answerAll oneWaitsInVain).2) ∧
    (leaveOut {1, 2} oneWaitsInVain).length = 5 ∧
    (t.answerAll oneWaitsInVain).2.ledger.history.map TransferOrder.description = ["first"] := by
  intro t replies
  have hblocked : replies[1]? = some .blocked := by
    simp [replies, t, oneWaitsInVain, answerAll, answer]
  obtain ⟨-, -, homit⟩ := hold_exclusive_and_given_up Ledger.tenAndNothing oneWaitsInVain
  refine ⟨?_, homit {1, 2} ?_, rfl, by decide +kernel⟩
  · simp only [replies, t, oneWaitsInVain, answerAll, answer, Bool.false_eq_true, if_false, if_true]
    exact ⟨_, _, _, _, rfl, by decide +kernel⟩
  · intro i hi
    rcases Finset.mem_insert.1 hi with rfl | hlast
    · exact .inl hblocked
    · obtain rfl := Finset.mem_singleton.1 hlast
      exact .inr rfl

end Turnstile

end TransferDesk
