import TransferDesk.Ledger
/-!
# Transaction scopes

A `Scope` is a transaction. It runs statements against a ledger that it does not touch: new balances
and transfers are staged, and a look-up sees the staged balance of an account before the ledger's.
Only a commit posts what is staged, and it posts all of it.

* A scope for reading refuses transfers.
* A transfer that fails aborts the scope. From then on look-ups, transfers and the commit are
  refused, whatever was staged before.
* A scope that ends in any other way than by a commit that succeeds leaves the ledger as it was.
-/

namespace TransferDesk

/-- What a scope may do. -/
inductive Access where
  | readOnly
  | readWrite
deriving DecidableEq, Repr

/-- What can be asked of an open scope. -/
inductive Statement where
  /-- What the scope may do. -/
  | access
  /-- The account as the scope sees it. -/
  | account (id : AccountId)
  /-- The balance of an account as the scope sees it. -/
  | balance (id : AccountId)
  /-- Stage a transfer. -/
  | transfer (order : TransferOrder)
deriving DecidableEq, Repr

/-- What a statement that succeeds answers. -/
abbrev Statement.Answer : Statement → Type
  | .access => Access
  | .account _ => Option Account
  | .balance _ => Option Decimal
  | .transfer _ => Unit

/-- An open scope on a ledger. -/
structure Scope where
  /-- The ledger as it was when the scope was opened. -/
  ledger : Ledger
  access : Access
  /-- Whether a transfer has failed in this scope. -/
  aborted : Bool := false
  /-- The staged balances, one for each account that a staged transfer names. -/
  balances : List (AccountId × Decimal) := []
  /-- The staged transfers, oldest first. -/
  orders : List TransferOrder := []
deriving DecidableEq, Repr

/-- How a scope is ended. -/
inductive Closing where
  | commit
  | rollback
  /-- The scope is given up without a word. -/
  | abandon
deriving DecidableEq, Repr

namespace Scope

/-- A scope in which nothing has happened yet. -/
def begin (ledger : Ledger) (access : Access) : Scope :=
  { ledger, access }

/-- Whether transfers are staged. -/
def isDirty (s : Scope) : Bool :=
  !s.orders.isEmpty

/-- An account with its staged balance, if it has one. -/
def view? (s : Scope) (id : AccountId) : Option Account :=
  (s.ledger.find? id).map (Ledger.rebalance s.balances)

/-- The list of staged balances with a new one for an account. -/
def stageBalance (id : AccountId) (balance : Decimal) (balances : List (AccountId × Decimal)) :
    List (AccountId × Decimal) :=
  (id, balance) :: balances.filter (·.1 ≠ id)

/-- Stages a transfer. The source is looked up before the target. -/
def stage (s : Scope) (order : TransferOrder) : Except Fault Scope :=
  if s.access = .readOnly then .error (.readOnly "transfer_money")
  else
    match s.view? order.source with
    | none => .error (.unknownAccount order.source)
    | some source =>
      match s.view? order.target with
      | none => .error (.unknownAccount order.target)
      | some target =>
        match settle source target order.amount with
        | .error fault => .error fault
        | .ok posting =>
          .ok { s with
            balances := stageBalance order.target posting.targetBalance
              (stageBalance order.source posting.sourceBalance s.balances)
            orders := s.orders ++ [{ order with amount := posting.amount }] }

/-- Runs a statement. -/
def run (s : Scope) : (q : Statement) → Except Fault q.Answer × Scope
  | .access => (.ok s.access, s)
  | .account id => (if s.aborted then .error .aborted else .ok (s.view? id), s)
  | .balance id =>
    (if s.aborted then .error .aborted else .ok ((s.view? id).map Account.balance), s)
  | .transfer order =>
    if s.aborted then (.error .aborted, s)
    else
      match s.stage order with
      | .error fault => (.error fault, { s with aborted := true })
      | .ok staged => (.ok (), staged)

/-- Posts what is staged, unless the scope is aborted. The ledger is the one after the scope. -/
def commit (s : Scope) : Except Fault Unit × Ledger :=
  if s.aborted then (.error .aborted, s.ledger)
  else (.ok (), s.ledger.post s.balances s.orders)

/-- What a scope saw of an account is what the ledger shows after the commit. -/
theorem find?_commit {s : Scope} {after : Ledger} (h : s.commit = (.ok (), after))
    (id : AccountId) : after.find? id = s.view? id := by
  unfold commit at h
  split at h
  · simp at h
  · rw [← (Prod.mk.inj h).2, Ledger.find?_post]
    rfl

/-- Ends a scope. The ledger is the one after the scope. -/
def close (s : Scope) : Closing → Except Fault Unit × Ledger
  | .commit => s.commit
  | .rollback => (.ok (), s.ledger)
  | .abandon => (.ok (), s.ledger)

/-! ## Runs of statements -/

/-- A statement, what came of it and whether transfers were staged after it. -/
structure Observation where
  statement : Statement
  answer : Except Fault statement.Answer
  dirty : Bool

/-- Runs statements one after the other, whether they succeed or not. -/
def observe (s : Scope) : List Statement → List Observation × Scope
  | [] => ([], s)
  | q :: qs =>
    let (answer, s) := s.run q
    let (rest, last) := s.observe qs
    (⟨q, answer, s.isDirty⟩ :: rest, last)

end Scope

end TransferDesk
