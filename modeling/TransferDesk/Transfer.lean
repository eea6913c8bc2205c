import TransferDesk.Decimal.Arithmetic
import TransferDesk.Fault
import TransferDesk.Money
/-!
# Transfers

A `TransferOrder` asks to move an amount from one account to another. `checkAmount` validates the
amount, and `settle` plans the transfer, or decides that it may not be made. The rules are tried in
this order, and the first one broken is the answer:

* the amount is positive and needs at most two places;
* the accounts differ;
* they hold the same currency;
* the source covers the amount;
* both new balances are within bounds.
-/

namespace TransferDesk

/-- An order to move money between two accounts. -/
structure TransferOrder where
  source : AccountId
  target : AccountId
  amount : Decimal
  description : String
deriving DecidableEq, Repr

/-- The description of a transfer for which none is given. -/
def TransferOrder.defaultDescription : String := "Server transfer"

/-- What a transfer comes to: the amount as it is booked and the two balances after it. -/
structure Posting where
  amount : Decimal
  sourceBalance : Decimal
  targetBalance : Decimal
deriving DecidableEq, Repr

/-- The amount as it is booked, at two places if it fits there. -/
def checkAmount (amount : Decimal) : Except Fault Decimal :=
  if ¬ amount.Positive then
    .error (.invalidAmount amount.toText "amount must be positive")
  else if amount.ExceedsMoney then
    .error (.invalidAmount amount.toText "amount must have at most 2 decimal places")
  else .ok amount.asMoney

/-- The balances of two different accounts after a booked amount has moved from one to the other. -/
def book (source target : Account) (amount : Decimal) : Except Fault Posting :=
  if source.id = target.id then .error (.sameAccount source.id)
  else if source.currency ≠ target.currency then
    .error (.currencyMismatch source.id source.currency target.id target.currency)
  else if source.balance < amount then
    .error (.insufficientFunds source.id source.balance amount)
  else
    match source.balance.sub? amount with
    | none => .error (.overflow "transfer debit" source.id)
    | some sourceBalance =>
      match target.balance.add? amount with
      | none => .error (.overflow "transfer credit" target.id)
      | some targetBalance => .ok ⟨amount, sourceBalance, targetBalance⟩

/-- Decides a transfer between two accounts. -/
def settle (source target : Account) (amount : Decimal) : Except Fault Posting :=
  match checkAmount amount with
  | .error fault => .error fault
  | .ok booked => book source target booked

end TransferDesk
