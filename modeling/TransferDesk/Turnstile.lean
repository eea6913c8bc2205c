import TransferDesk.Scope.Program
/-!
# One holder at a time

A `Turnstile` is the gatekeeper of a ledger and lets one holder at a time to it. A call that needs
the ledger while somebody holds it is blocked: it has no effect, now or later. Who is blocked gives
up and does not wait in a queue.

* `lock` takes the hold and `unlock` gives it up. While it is held, the holder can read the journal
  and open scopes.
* `tryLock` says whether the ledger is free. If it is, the hold is taken and given back at once,
  before any other call, so the turnstile stays as it was.
* `execute` takes the hold, runs a program in a scope of its own and gives the hold up, however the
  program ends.
-/

namespace TransferDesk

/-- A ledger that is free or held. -/
structure Turnstile where
  ledger : Ledger
  held : Bool := false
deriving DecidableEq, Repr

namespace Turnstile

/-- What can be asked of a turnstile. -/
inductive Call where
  | lock
  | unlock
  | tryLock
  /-- Read the journal through the hold. -/
  | journal
  /-- Run statements in a scope opened through the hold, and end it. -/
  | scope (access : Access) (statements : List Statement) (closing : Closing)
  /-- Wait for the hold and run a program in a scope. -/
  | execute (access : Access) (program : Program Unit)

/-- What a call comes to. -/
inductive Reply where
  | granted
  /-- Somebody holds the ledger. -/
  | blocked
  | free (isFree : Bool)
  /-- The call goes through a hold, and there is none. -/
  | notHeld
  | journal (entries : List JournalEntry)
  | scope (observations : List Scope.Observation) (ending : Except Fault Unit)
  | executed (observations : List Scope.Observation) (result : Except Fault Unit)

/-- Answers a call. -/
def answer (t : Turnstile) : Call → Reply × Turnstile
  | .lock => if t.held then (.blocked, t) else (.granted, { t with held := true })
  | .unlock => (.granted, { t with held := false })
  | .tryLock => (.free (!t.held), t)
  | .journal => if t.held then (.journal t.ledger.journal, t) else (.notHeld, t)
  | .scope access statements closing =>
    if t.held then
      let (observations, s) := (Scope.begin t.ledger access).observe statements
      let (ending, ledger) := s.close closing
      (.scope observations ending, { t with ledger })
    else (.notHeld, t)
  | .execute access program =>
    if t.held then (.blocked, t)
    else
      let (result, ledger) := t.ledger.execute access program
      (.executed (program.observations (Scope.begin t.ledger access)) result, { t with ledger })

/-- Answers calls one after the other. -/
def answerAll (t : Turnstile) : List Call → List Reply × Turnstile
  | [] => ([], t)
  | call :: calls =>
    let (reply, t) := t.answer call
    let (replies, last) := t.answerAll calls
    (reply :: replies, last)

end Turnstile

end TransferDesk
