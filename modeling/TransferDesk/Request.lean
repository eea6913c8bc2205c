import TransferDesk.Decimal.Reader
import TransferDesk.Text.Blank
import TransferDesk.Transfer
/-!
# Requests

A request is a command of the protocol, and is parsed from a line of tokens. The first token is the
verb, in upper case:

* `PING`
* `BALANCE` and an account number
* `TRANSFER`, the numbers of the source and the target, and an amount. What follows the amount is
  the description, up to the end of the line and without the blanks in front.

Further tokens after `PING` and `BALANCE` count for nothing. A line with any other verb, or with
none, is a request too: an unknown one.
-/

namespace TransferDesk

open TransferDesk.Text (splitToken? trimStart readInt32)

/-- A line that could be read. -/
inductive Request where
  | ping
  | balance (id : AccountId)
  | transfer (order : TransferOrder)
  | unknown (verb : String)
deriving DecidableEq, Repr

/-- A line whose verb is known and whose arguments are not what the verb needs. -/
inductive Malformed where
  | balance
  | transfer
deriving DecidableEq, Repr

/-- The wording for a malformed line. -/
def Malformed.message : Malformed → String
  | balance => "Invalid BALANCE arguments"
  | transfer => "Invalid TRANSFER arguments"

namespace Request

/-- The verb of a request. -/
def verb : Request → String
  | ping => "PING"
  | balance _ => "BALANCE"
  | transfer _ => "TRANSFER"
  | unknown verb => verb

/-- Reads an account number. -/
def readId? (token : List Char) : Option AccountId :=
  (readInt32 10 token).toOption

/-- Reads what follows `BALANCE`. -/
def readBalance? (s : List Char) : Option Request :=
  match splitToken? s with
  | none => none
  | some (id, _) => (readId? id).map balance

/-- The description that is left of a line, or the default one if only blanks are. -/
def readDescription (s : List Char) : String :=
  match trimStart s with
  | [] => TransferOrder.defaultDescription
  | c :: cs => String.ofList (c :: cs)

/-- Reads what follows `TRANSFER`. -/
def readTransfer? (s : List Char) : Option Request :=
  match splitToken? s with
  | none => none
  | some (source, s) =>
    match splitToken? s with
    | none => none
    | some (target, s) =>
      match splitToken? s with
      | none => none
      | some (amount, s) =>
        match readId? source, readId? target, Decimal.ofChars? amount with
        | some source, some target, some amount =>
          some (transfer ⟨source, target, amount, readDescription s⟩)
        | _, _, _ => none

/-- Reads a line. -/
def ofLine (line : List Char) : Except Malformed Request :=
  let (verb, rest) := (splitToken? line).getD ([], [])
  if verb = "PING".toList then .ok ping
  else if verb = "BALANCE".toList then
    match readBalance? rest with
    | some request => .ok request
    | none => .error .balance
  else if verb = "TRANSFER".toList then
    match readTransfer? rest with
    | some request => .ok request
    | none => .error .transfer
  else .ok (unknown (String.ofList verb))

end Request

end TransferDesk
