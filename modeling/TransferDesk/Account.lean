import TransferDesk.Decimal.Basic
/-!
# Accounts

An account belongs to a customer and holds a balance in one currency.
-/

namespace TransferDesk

/-- The number by which an account is named. -/
abbrev AccountId := Int32

/-- An account, its customer and its balance. -/
structure Account where
  id : AccountId
  customerId : Int32 := 0
  customerName : String := ""
  customerEmail : String := ""
  /-- The sort of account, such as checking or savings. -/
  kind : String := "checking"
  balance : Decimal
  /-- The currency's three letters, in upper case. -/
  currency : String
deriving DecidableEq, Repr

end TransferDesk
