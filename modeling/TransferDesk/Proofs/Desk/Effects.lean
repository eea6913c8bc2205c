import TransferDesk.Desk
import TransferDesk.Proofs.Scope.Programs
/-!
# What an answer does to the ledger

To look a balance up leaves the ledger as it is, and so does a transfer that is refused. A transfer
that is made (`Ledger.Made`) sets the two balances that it comes to and adds one entry to the
journal.

`Desk.answer_cases` says it of every request: the answer is not `OK` and the ledger stays as it is,
or the request is a transfer that was made. So requests keep whatever every transfer keeps, and so
does any sequence of visits and requests (`KeptByTransfers.dealAll`).
-/

namespace TransferDesk

namespace Ledger

variable {l after : Ledger} {order : TransferOrder} {source target : Account} {p : Posting}

/-! ## Programs of one statement -/

theorem execute_ask_of_error {access : Access} {q : Statement} {fault : Fault}
    (h : ((Scope.begin l access).run q).1 = .error fault) :
    l.execute access (.ask q) = (.error fault, l) := by
  have hrun : ((Program.ask q).run (Scope.begin l access)).1 = .error fault := by
    simp only [Program.ask, Program.run, h]
  exact execute_of_fail hrun

theorem execute_ask_of_ok {access : Access} {q : Statement} {a : q.Answer} {s : Scope}
    (h : (Scope.begin l access).run q = (.ok a, s)) (hactive : s.aborted = false) :
    l.execute access (.ask q) = (.ok a, s.posted) := by
  have hrun : (Program.ask q).run (Scope.begin l access) = (.ok a, s) := by
    simp only [Program.ask, Program.run, h]
  rw [execute_of_done (congrArg Prod.fst hrun), hrun, Scope.commit_of_active hactive]
  rfl

/-- To look a balance up changes nothing. -/
theorem balance_ledger (l : Ledger) (id : AccountId) : (l.balance id).2 = l := by
  have hsame := l.execute_readOnly (.ask (.balance id))
  unfold balance
  rcases hexecute : l.execute .readOnly (.ask (.balance id)) with ⟨result, after⟩
  rw [hexecute] at hsame
  rcases result with fault | _ | balance <;> exact hsame

/-! ## Transfers -/

/-- The ledger after a transfer that was made. -/
structure Made (l : Ledger) (order : TransferOrder) (source target : Account) (p : Posting)
    (after : Ledger) : Prop where
  takes : (Scope.begin l .readWrite).Takes order source target p
  accounts : after.accounts = l.accounts.map (p.update order)
  journal : after.journal = l.journal ++ [⟨l.nextNumber, p.order order⟩]
  nextNumber : after.nextNumber = l.nextNumber + 1

theorem Made.history (h : l.Made order source target p after) :
    after.history = l.history ++ [p.order order] := by
  unfold Ledger.history
  rw [h.journal, List.map_append]
  rfl

/-- A transfer is refused and changes nothing, or is made. -/
theorem transfer_cases (l : Ledger) (order : TransferOrder) :
    (∃ fault, l.transfer order = (.error (.transferFailed fault), l)) ∨
      ∃ source target p after, l.transfer order = (.ok (), after) ∧
        l.Made order source target p after := by
  cases hrun : (Scope.begin l .readWrite).run (.transfer order) with
  | mk result s =>
    cases result with
    | error fault =>
      left
      refine ⟨fault, ?_⟩
      unfold transfer
      rw [execute_ask_of_error (congrArg Prod.fst hrun)]
    | ok =>
      right
      obtain ⟨source, target, p, ht, rfl⟩ := Scope.run_transfer_eq_ok hrun
      let s := (Scope.begin l .readWrite).staging order p
      refine ⟨source, target, p, s.posted, ?_, ht, ?_, rfl, rfl⟩
      · unfold transfer
        rw [execute_ask_of_ok hrun rfl]
      · change s.shown = _
        rw [Scope.shown_staging, Scope.shown_begin]

end Ledger

/-! ## Requests -/

theorem Desk.answer_transfer (order : TransferOrder) (l : Ledger) :
    Desk.answer (.ok (.transfer order)) l =
      (Desk.respond (fun _ => .ok) (.ofExcept (l.transfer order).1), (l.transfer order).2) :=
  rfl

/-- All that a request can do to a ledger. -/
theorem Desk.answer_cases (request : Except Malformed Request) (l : Ledger) :
    ((Desk.answer request l).1 ≠ .ok ∧ (Desk.answer request l).2 = l) ∨
      ∃ order source target p, request = .ok (.transfer order) ∧
        (Desk.answer request l).1 = .ok ∧
        l.Made order source target p (Desk.answer request l).2 := by
  rcases request with malformed | request
  · exact Or.inl ⟨by simp [Desk.answer], rfl⟩
  · cases request with
    | ping => exact Or.inl ⟨by simp [Desk.answer, Desk.serve], rfl⟩
    | unknown verb => exact Or.inl ⟨by simp [Desk.answer, Desk.serve], rfl⟩
    | balance id =>
      left
      constructor
      · simp only [Desk.answer, Desk.serve, Bank.balance]
        cases (l.balance id).1 <;> simp [Outcome.ofExcept, Desk.respond]
      · exact l.balance_ledger id
    | transfer order =>
      rcases l.transfer_cases order with ⟨fault, hrefused⟩ | ⟨source, target, p, after, hok, hmade⟩
      · left
        simp [Desk.answer, Desk.serve, Bank.transfer, hrefused, Outcome.ofExcept, Desk.respond]
      · right
        refine ⟨order, source, target, p, rfl, ?_, ?_⟩
        · simp only [Desk.answer, Desk.serve, Bank.transfer, hok, Outcome.ofExcept, Desk.respond]
        · simp only [Desk.answer, Desk.serve, Bank.transfer, hok]
          exact hmade

namespace Scope

variable {P : List Account → List TransferOrder → Prop}

theorem KeptByTransfers.made (hP : KeptByTransfers P) {l after : Ledger} {order : TransferOrder}
    {source target : Account} {p : Posting} (hmade : l.Made order source target p after)
    (h : P l.accounts l.history) : P after.accounts after.history := by
  have hkept := hP hmade.takes
  rw [shown_begin, history_begin] at hkept
  rw [hmade.accounts, hmade.history]
  exact hkept h

theorem KeptByTransfers.answer (hP : KeptByTransfers P) {l : Ledger} (h : P l.accounts l.history)
    (request : Except Malformed Request) :
    P (Desk.answer request l).2.accounts (Desk.answer request l).2.history := by
  rcases Desk.answer_cases request l with ⟨-, hsame⟩ | ⟨order, source, target, p, -, -, hmade⟩
  · rw [hsame]
    exact h
  · exact hP.made hmade h

end Scope

/-! ## Dealings -/

/-- One use of a ledger, through a scope or at the desk. -/
inductive Dealing where
  | visit (v : Visit)
  | request (request : Except Malformed Request)

namespace Ledger

/-- The ledger after a dealing. -/
def deal (l : Ledger) : Dealing → Ledger
  | .visit v => (l.visit v).2
  | .request request => (Desk.answer request l).2

/-- The ledger after dealings, one after the other. -/
def dealAll (l : Ledger) (dealings : List Dealing) : Ledger :=
  dealings.foldl deal l

end Ledger

/-- Dealings keep whatever every transfer keeps. -/
theorem Scope.KeptByTransfers.dealAll {P : List Account → List TransferOrder → Prop}
    (hP : KeptByTransfers P) {l : Ledger} (h : P l.accounts l.history) (dealings : List Dealing) :
    P (l.dealAll dealings).accounts (l.dealAll dealings).history := by
  induction dealings generalizing l with
  | nil => exact h
  | cons dealing dealings ih =>
    apply ih
    cases dealing with
    | visit v => exact hP.visit h v
    | request request => exact hP.answer h request

end TransferDesk
