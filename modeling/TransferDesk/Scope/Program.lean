import TransferDesk.Scope
/-!
# Programs over a scope

A `Program` is what a caller wants done in a transaction: it asks statements of a scope one at a
time. Which statement comes next, and what the program returns or fails with in the end, may depend
on all answers so far, faults included: a program may carry on after a statement that failed.

`Ledger.execute` runs a program in a scope of its own. Only if the program returns and the commit
succeeds is anything posted.
-/

namespace TransferDesk

/-- A program that returns an `α` or fails. -/
inductive Program (α : Type) where
  | done (a : α)
  | fail (fault : Fault)
  | step (q : Statement) (next : Except Fault q.Answer → Program α)

namespace Program

variable {α : Type}

/-- Runs a program in a scope. -/
def run : Program α → Scope → Except Fault α × Scope
  | done a, s => (.ok a, s)
  | fail fault, s => (.error fault, s)
  | step q next, s => (next (s.run q).1).run (s.run q).2

/-- The statements that a program asks in a scope, with what came of each. -/
def observations : Program α → Scope → List Scope.Observation
  | done _, _ => []
  | fail _, _ => []
  | step q next, s =>
    ⟨q, (s.run q).1, (s.run q).2.isDirty⟩ :: (next (s.run q).1).observations (s.run q).2

/-- The program that asks one statement and returns its answer. -/
def ask (q : Statement) : Program q.Answer :=
  step q fun
    | .ok a => done a
    | .error fault => fail fault

/-- The program that asks statements up to the first that fails, and fails with it. -/
def strict : List Statement → Program Unit
  | [] => done ()
  | q :: qs => step q fun
    | .ok _ => strict qs
    | .error fault => fail fault

/-- The program that asks all statements and returns whatever came of them. -/
def lenient : List Statement → Program Unit
  | [] => done ()
  | q :: qs => step q fun _ => lenient qs

end Program

namespace Ledger

variable {α : Type}

/-- Runs a program in a scope of its own, which is committed if the program returns and given up if
it fails. -/
def execute (l : Ledger) (access : Access) (program : Program α) : Except Fault α × Ledger :=
  match program.run (Scope.begin l access) with
  | (.error fault, _) => (.error fault, l)
  | (.ok a, s) =>
    match s.commit with
    | (.error fault, after) => (.error fault, after)
    | (.ok (), after) => (.ok a, after)

end Ledger

end TransferDesk
