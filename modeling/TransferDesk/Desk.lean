import TransferDesk.Request
import TransferDesk.Response
import TransferDesk.Bank
/-!
# The desk

The desk is the dispatcher: it turns requests into responses, with the help of a bank. Every request
gets exactly one response: a malformed one, an unknown one, one that the bank refuses and one at
which the bank crashes are each answered with an error.
-/

namespace TransferDesk.Desk

/-- The text of the error for a verb that is not known. -/
def unknownCommand : String := "Unknown command"

/-- The text of the error for a call at which the bank crashes. -/
def internalError : String := "Internal error"

variable {σ : Type} [Bank σ]

/-- The response to what the bank made of a call. -/
def respond {α : Type} (value : α → Response) : Outcome α → Response
  | .value a => value a
  | .refused fault => .error fault.message
  | .crashed => .error internalError

/-- Answers a request that could be read. -/
def serve : Request → σ → Response × σ
  | .ping, bank => (.pong, bank)
  | .balance id, bank =>
    let (outcome, bank) := Bank.balance id bank
    (respond (.balance id) outcome, bank)
  | .transfer order, bank =>
    let (outcome, bank) := Bank.transfer order bank
    (respond (fun _ => .ok) outcome, bank)
  | .unknown _, bank => (.error unknownCommand, bank)

/-- Answers a request. -/
def answer : Except Malformed Request → σ → Response × σ
  | .ok request, bank => serve request bank
  | .error malformed, bank => (.error malformed.message, bank)

/-- Answers requests one after the other. -/
def answerAll : List (Except Malformed Request) → σ → List Response × σ
  | [], bank => ([], bank)
  | request :: requests, bank =>
    let (response, bank) := answer request bank
    let (responses, last) := answerAll requests bank
    (response :: responses, last)

end TransferDesk.Desk
