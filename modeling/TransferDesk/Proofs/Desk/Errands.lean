import TransferDesk.Desk
import TransferDesk.Proofs.Runs
import TransferDesk.Proofs.Scope.Programs
/-!
# What a request needs

Some requests are answered at once, and for the others somebody has to go to the ledger with an
`Errand`: a program to run in a scope, and the response to every way in which that can fail.

`Desk.run_job` says that the desk of a ledger does nothing else: to answer a request is to run the
errand that the request needs.
-/

namespace TransferDesk

namespace Program

variable {α β : Type}

/-- The program that returns a function of what another one returns. -/
def map (f : α → β) : Program α → Program β
  | done a => done (f a)
  | fail fault => fail fault
  | step q next => step q fun answer => (next answer).map f

theorem run_map (f : α → β) (program : Program α) (s : Scope) :
    (program.map f).run s = ((program.run s).1.map f, (program.run s).2) := by
  induction program generalizing s with
  | done a => rfl
  | fail fault => rfl
  | step q next ih => exact ih _ _

end Program

theorem Ledger.execute_map {α β : Type} (f : α → β) (l : Ledger) (access : Access)
    (program : Program α) :
    l.execute access (program.map f) =
      ((l.execute access program).1.map f, (l.execute access program).2) := by
  unfold Ledger.execute
  rw [Program.run_map]
  rcases program.run (Scope.begin l access) with ⟨result, s⟩
  cases result with
  | error fault => rfl
  | ok a =>
    simp only [Except.map]
    rcases s.commit with ⟨ending, after⟩
    cases ending <;> rfl

/-! ## Errands -/

/-- A program to run in a scope of its own on the way to a response. -/
structure Errand where
  access : Access
  program : Program Response
  /-- The response if the program or the commit fails. -/
  refusal : Fault → Response

namespace Errand

/-- The response to what came of the program. -/
def response (e : Errand) : Except Fault Response → Response
  | .ok response => response
  | .error fault => e.refusal fault

/-- Runs an errand. -/
def run (e : Errand) (l : Ledger) : Response × Ledger :=
  let (result, after) := l.execute e.access e.program
  (e.response result, after)

/-- What comes of an errand whose program passes on a function of what another one returns. -/
theorem run_map {α : Type} (access : Access) (f : α → Response) (program : Program α)
    (refusal : Fault → Response) (l : Ledger) :
    (Errand.mk access (program.map f) refusal).run l =
      (match (l.execute access program).1 with
        | .ok a => f a
        | .error fault => refusal fault, (l.execute access program).2) := by
  unfold run
  rw [Ledger.execute_map]
  rcases l.execute access program with ⟨result, after⟩
  cases result <;> rfl

/-- What comes of an errand whose program returns. -/
theorem run_of_ok {e : Errand} {l : Ledger} {response : Response} {s : Scope}
    (h : e.program.run (Scope.begin l e.access) = (.ok response, s)) :
    e.run l = (e.response (s.commit.1.map fun _ => response), s.commit.2) := by
  unfold run
  rw [Ledger.execute_of_done (congrArg Prod.fst h), h]

/-- What comes of an errand whose program fails. -/
theorem run_of_error {e : Errand} {l : Ledger} {fault : Fault} {s : Scope}
    (h : e.program.run (Scope.begin l e.access) = (.error fault, s)) :
    e.run l = (e.refusal fault, l) := by
  unfold run
  rw [Ledger.execute_of_fail (congrArg Prod.fst h)]
  rfl

/-- The response to a look-up of a balance. -/
def found (id : AccountId) : Option Decimal → Response
  | some balance => .balance id balance
  | none => .error (Fault.unknownAccount id).message

/-- The errand for a balance. -/
def balance (id : AccountId) : Errand where
  access := .readOnly
  program := (Program.ask (.balance id)).map (found id)
  refusal fault := .error fault.message

/-- The errand for a transfer. -/
def transfer (order : TransferOrder) : Errand where
  access := .readWrite
  program := (Program.ask (.transfer order)).map fun _ => Response.ok
  refusal fault := .error (Fault.transferFailed fault).message

end Errand

namespace Desk

theorem run_balance (id : AccountId) (l : Ledger) :
    (Errand.balance id).run l = serve (.balance id) l := by
  unfold Errand.balance
  rw [Errand.run_map]
  simp only [serve, Bank.balance, Ledger.balance]
  rcases l.execute .readOnly (Program.ask (.balance id)) with ⟨result, after⟩
  rcases result with fault | balance
  · rfl
  · cases balance <;> rfl

theorem run_transfer (order : TransferOrder) (l : Ledger) :
    (Errand.transfer order).run l = serve (.transfer order) l := by
  unfold Errand.transfer
  rw [Errand.run_map]
  simp only [serve, Bank.transfer, Ledger.transfer]
  rcases l.execute .readWrite (Program.ask (.transfer order)) with ⟨result, after⟩
  cases result <;> rfl

/-- What has to be done for a response. -/
inductive Job where
  /-- The response does not depend on the ledger. -/
  | reply (response : Response)
  | errand (e : Errand)

/-- Whether the ledger is needed. -/
def Job.isErrand : Job → Bool
  | .reply _ => false
  | .errand _ => true

/-- Does what has to be done. -/
def Job.run : Job → Ledger → Response × Ledger
  | .reply response, l => (response, l)
  | .errand e, l => e.run l

/-- What has to be done for a request. -/
def job : Except Malformed Request → Job
  | .ok .ping => .reply .pong
  | .ok (.balance id) => .errand (Errand.balance id)
  | .ok (.transfer order) => .errand (Errand.transfer order)
  | .ok (.unknown _) => .reply (.error unknownCommand)
  | .error malformed => .reply (.error malformed.message)

/-- To answer a request is to do what has to be done for it. -/
theorem run_job (request : Except Malformed Request) (l : Ledger) :
    (job request).run l = answer request l := by
  cases request with
  | error malformed => rfl
  | ok request =>
    cases request with
    | ping => rfl
    | balance id => exact run_balance id l
    | transfer order => exact run_transfer order l
    | unknown verb => rfl

/-! ## Requests one after the other -/

variable {σ : Type} [Bank σ]

theorem answerAll_eq_runAll (requests : List (Except Malformed Request)) (bank : σ) :
    answerAll requests bank = runAll answer requests bank := by
  induction requests generalizing bank with
  | nil => rfl
  | cons request requests ih =>
    rw [runAll_cons, ← ih]
    rfl

theorem length_answerAll (requests : List (Except Malformed Request)) (bank : σ) :
    (answerAll requests bank).1.length = requests.length := by
  rw [answerAll_eq_runAll, length_runAll]

/-- Requests in two batches are answered as in one, the second with the bank that the first
leaves. -/
theorem answerAll_append (requests more : List (Except Malformed Request)) (bank : σ) :
    answerAll (requests ++ more) bank =
      ((answerAll requests bank).1 ++ (answerAll more (answerAll requests bank).2).1,
        (answerAll more (answerAll requests bank).2).2) := by
  simp only [answerAll_eq_runAll, runAll_append]

theorem answerAll_concat (requests : List (Except Malformed Request))
    (request : Except Malformed Request) (bank : σ) :
    answerAll (requests ++ [request]) bank =
      ((answerAll requests bank).1 ++ [(answer request (answerAll requests bank).2).1],
        (answer request (answerAll requests bank).2).2) :=
  answerAll_append requests [request] bank

end Desk

end TransferDesk
