import TransferDesk.Account
import TransferDesk.Decimal.Printer
import TransferDesk.Text.Integer
/-!
# Faults

The errors of the gateway: every reason for which a request, a transfer, a seed sheet or the start
of the server is refused. `Fault.message` is the one place where the reasons are worded; the wording
reaches clients as it is. What a stream fails with is a `TransportFault` and reaches no client.
-/

namespace TransferDesk

open TransferDesk.Text (integerText)

/-- A reason for a refusal. -/
inductive Fault where
  | unknownAccount (id : AccountId)
  | insufficientFunds (id : AccountId) (available requested : Decimal)
  | currencyMismatch (source : AccountId) (sourceCurrency : String)
      (target : AccountId) (targetCurrency : String)
  /-- The amount is a text, as it was given. -/
  | invalidAmount (amount reason : String)
  | sameAccount (id : AccountId)
  /-- The result of the operation on the balance of the account is out of bounds. -/
  | overflow (operation : String) (id : AccountId)
  /-- The operation would change something, and the scope is for reading only. -/
  | readOnly (operation : String)
  /-- A statement of the scope has failed before. -/
  | aborted
  | transferFailed (cause : Fault)
  | duplicateAccount (id : AccountId)
  | fileNotFound (path : String)
  | ioFailure (detail : String)
  /-- A seed sheet cannot be read; the line is where the record before the one at fault ended. -/
  | malformedSheet (line : Option Nat) (detail : String)
  | bindFailed (address detail : String)
  | runtimeFailure (detail : String)
deriving DecidableEq, Repr

namespace Fault

/-- The text of an account number. -/
def idText (id : AccountId) : String :=
  integerText id.toInt

/-- The wording of a fault. -/
def message : Fault → String
  | unknownAccount id => "Account not found: " ++ idText id
  | insufficientFunds id available requested =>
    "Insufficient funds in account " ++ idText id ++ ": available " ++ available.toText ++
      ", requested " ++ requested.toText
  | currencyMismatch source sourceCurrency target targetCurrency =>
    "Currency mismatch: account " ++ idText source ++ " is " ++ sourceCurrency ++ ", account " ++
      idText target ++ " is " ++ targetCurrency
  | invalidAmount amount reason => "Invalid amount " ++ amount ++ ": " ++ reason
  | sameAccount id => "Cannot transfer from account " ++ idText id ++ " to itself"
  | overflow operation id =>
    "Arithmetic overflow in " ++ operation ++ " for account " ++ idText id
  | readOnly operation => "Cannot execute " ++ operation ++ " in a read-only transaction"
  | aborted =>
    "Current transaction is aborted, commands ignored until end of transaction block"
  | transferFailed cause => "Transfer failed: " ++ cause.message
  | duplicateAccount id => "Duplicate account id " ++ idText id
  | fileNotFound path => "File not found: " ++ path
  | ioFailure detail => "I/O error: " ++ detail
  | malformedSheet none detail => "CSV parse error: " ++ detail
  | malformedSheet (some line) detail =>
    "CSV parse error at line " ++ integerText line ++ ": " ++ detail
  | bindFailed address detail => "Failed to bind " ++ address ++ ": " ++ detail
  | runtimeFailure detail => "Runtime error: " ++ detail

/-- The fault inside a fault that wraps another one. -/
def cause? : Fault → Option Fault
  | transferFailed cause => some cause
  | _ => none

end Fault

end TransferDesk
