import TransferDesk.Account
import TransferDesk.Decimal.Reader
import TransferDesk.Fault
import TransferDesk.Money
/-!
# Rows of a seed sheet

A `Row` holds the seven cells of an account: two numbers and five texts. `Row.toAccount` makes the
account of it, after these checks:

* the balance is a decimal that needs at most two places;
* the currency is three ASCII letters, in either case.
-/

namespace TransferDesk.Sheet

/-- An account as a seed sheet has it. -/
structure Row where
  accountId : AccountId
  customerId : Int32
  customerName : String
  customerEmail : String
  kind : String
  balance : String
  currency : String
deriving DecidableEq, Repr

/-- Why a row is no account. -/
inductive RowFault where
  | unreadableBalance (balance : String) (id : AccountId)
  | preciseBalance (balance : String) (id : AccountId)
  | badCurrency (currency : String) (id : AccountId)
deriving DecidableEq, Repr

/-- The wording of a fault in a row. -/
def RowFault.message : RowFault → String
  | unreadableBalance balance id =>
    "Invalid balance '" ++ balance ++ "' for account " ++ Fault.idText id
  | preciseBalance balance id =>
    "Balance '" ++ balance ++ "' for account " ++ Fault.idText id ++
      " has more than 2 decimal places"
  | badCurrency currency id =>
    "Invalid currency '" ++ currency ++ "' for account " ++ Fault.idText id

/-- Whether a character is an ASCII letter. -/
def isLetter (c : Char) : Bool :=
  ('a' ≤ c ∧ c ≤ 'z') ∨ ('A' ≤ c ∧ c ≤ 'Z')

/-- Reads a currency, in upper case. -/
def readCurrency? (s : String) : Option String :=
  let letters := s.toList.map Char.toUpper
  if letters.length = 3 ∧ letters.all isLetter then some (String.ofList letters) else none

/-- The account of a row. Its balance is as it is written. -/
def Row.toAccount (r : Row) : Except RowFault Account :=
  match Decimal.ofText? r.balance with
  | none => .error (.unreadableBalance r.balance r.accountId)
  | some balance =>
    if balance.ExceedsMoney then
      .error (.preciseBalance r.balance r.accountId)
    else
      match readCurrency? r.currency with
      | none => .error (.badCurrency r.currency r.accountId)
      | some currency =>
        .ok {
          id := r.accountId
          customerId := r.customerId
          customerName := r.customerName
          customerEmail := r.customerEmail
          kind := r.kind
          balance
          currency }

end TransferDesk.Sheet
