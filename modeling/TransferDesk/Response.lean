import TransferDesk.Decimal.Printer
import TransferDesk.Fault
import TransferDesk.Money
import TransferDesk.Text.Utf8
/-!
# Responses

A response goes over the wire as one line that ends in a line feed. Line breaks inside the text of
an error become spaces, so that no response is taken for two. A balance is shown with two places.
-/

namespace TransferDesk

/-- The answer to a request. -/
inductive Response where
  | pong
  | balance (id : AccountId) (amount : Decimal)
  | ok
  | error (message : String)
deriving DecidableEq, Repr

namespace Response

/-- Whether the response reports an error. -/
def isError : Response → Bool
  | error _ => true
  | _ => false

/-- A character of an error text as it is shown on a line. -/
def onOneLine (c : Char) : Char :=
  if c = '\r' ∨ c = '\n' then ' ' else c

/-- The line without its line feed. -/
def line : Response → List Char
  | pong => "PONG".toList
  | balance id amount =>
    "BALANCE ".toList ++ Text.integerChars id.toInt ++ ' ' :: amount.toFixedChars moneyPlaces
  | ok => "OK".toList
  | error message => "ERROR ".toList ++ message.toList.map onOneLine

/-- The characters that go over the wire. -/
def wire (r : Response) : List Char :=
  r.line ++ ['\n']

/-- The bytes that go over the wire. -/
def bytes (r : Response) : List UInt8 :=
  Text.Utf8.encode r.wire

end Response

end TransferDesk
