import TransferDesk.Scope.Program
/-!
# Inquiries and transfers

The account service and the transaction service: what clients ask of a ledger. Each of these runs in
a scope of its own: the look-ups in one for reading, the transfer in one for writing.

`Bank` is what the rest of the library needs of whoever looks accounts up and transfers money. A
call on a bank returns a value, is refused with a fault, or crashes. A `Ledger` is a bank that never
crashes, and an `Outage` is one where every call fails in the same way.
-/

namespace TransferDesk

namespace Ledger

/-- The account with a given number, if there is one. -/
def account (l : Ledger) (id : AccountId) : Except Fault (Option Account) × Ledger :=
  l.execute .readOnly (.ask (.account id))

/-- Whether there is an account with a given number. -/
def accountExists (l : Ledger) (id : AccountId) : Except Fault Bool × Ledger :=
  let (found, after) := l.account id
  (found.map Option.isSome, after)

/-- The balance of an account, which has to exist. -/
def balance (l : Ledger) (id : AccountId) : Except Fault Decimal × Ledger :=
  match l.execute .readOnly (.ask (.balance id)) with
  | (.ok (some balance), after) => (.ok balance, after)
  | (.ok none, after) => (.error (.unknownAccount id), after)
  | (.error fault, after) => (.error fault, after)

/-- Makes a transfer. A fault is reported as the cause of a failed transfer. -/
def transfer (l : Ledger) (order : TransferOrder) : Except Fault Unit × Ledger :=
  match l.execute .readWrite (.ask (.transfer order)) with
  | (.ok (), after) => (.ok (), after)
  | (.error fault, after) => (.error (.transferFailed fault), after)

end Ledger

/-- What comes of a call on a bank. -/
inductive Outcome (α : Type) where
  | value (a : α)
  | refused (fault : Fault)
  | crashed
deriving DecidableEq, Repr

/-- The outcome of a call that does not crash. -/
def Outcome.ofExcept {α : Type} : Except Fault α → Outcome α
  | .ok a => value a
  | .error fault => refused fault

/-- Whoever keeps the accounts, in a state of type `σ`. -/
class Bank (σ : Type) where
  balance : AccountId → σ → Outcome Decimal × σ
  transfer : TransferOrder → σ → Outcome Unit × σ

instance : Bank Ledger where
  balance id l := let (result, after) := l.balance id; (.ofExcept result, after)
  transfer order l := let (result, after) := l.transfer order; (.ofExcept result, after)

/-- A bank at which every call fails. -/
inductive Outage where
  | refusal (fault : Fault)
  | crash
deriving DecidableEq, Repr

/-- What comes of every call during an outage. -/
def Outage.outcome {α : Type} : Outage → Outcome α
  | refusal fault => .refused fault
  | crash => .crashed

instance : Bank Outage where
  balance _ outage := (outage.outcome, outage)
  transfer _ outage := (outage.outcome, outage)

end TransferDesk
