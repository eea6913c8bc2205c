import Mathlib.Logic.Function.Basic
import TransferDesk.Turnstile
import TransferDesk.Proofs.Desk.Errands
/-!
# Callers at one turnstile

Any number of callers have their requests answered, each one's in order, by desks that share a
turnstile. A request that needs the ledger takes its caller through these stages:

* `waiting` for the hold, which any waiting caller gets once it is free;
* `holding` it, with no scope open yet;
* `running` a program in a scope, one statement at a time;
* `leaving`, when the scope is ended, the response is known and the hold is still there.

`Caller.move?` says what a single caller can do next, and `Hall.step?` lets one of the callers do
it. A list of such steps is an interleaving: nothing is said about whose turn it is.
-/

namespace TransferDesk

/-- How far a caller is with the first of the requests. -/
inductive Stage where
  /-- Not begun. -/
  | idle
  | waiting (e : Errand)
  | holding (e : Errand)
  /-- The scope is open, and `rest` is what is left of the program. -/
  | running (e : Errand) (rest : Program Response) (s : Scope)
  | leaving (response : Response)

/-- What a caller can do. -/
inductive Move where
  /-- Begin with a request, and answer it if that does not need the ledger. -/
  | start
  /-- Be granted the hold. -/
  | grant
  /-- Open the scope. -/
  | enter
  /-- Run a statement. -/
  | ask
  /-- Commit the scope, or give it up if the program has failed. -/
  | finish
  /-- Give up the hold and answer the request. -/
  | leave
deriving DecidableEq, Repr

/-- A caller and the requests that are not answered yet. -/
structure Caller where
  todo : List (Except Malformed Request)
  answers : List Response := []
  stage : Stage := .idle

/-- The turnstile and the caller after a move, if the move is possible. -/
def Caller.move? : Move → Turnstile → Caller → Option (Turnstile × Caller)
  | .start, gate, ⟨request :: todo, answers, .idle⟩ =>
    match Desk.job request with
    | .reply response => some (gate, ⟨todo, answers ++ [response], .idle⟩)
    | .errand e => some (gate, ⟨request :: todo, answers, .waiting e⟩)
  | .grant, gate, ⟨todo, answers, .waiting e⟩ =>
    match gate.answer .lock with
    | (.granted, gate) => some (gate, ⟨todo, answers, .holding e⟩)
    | _ => none
  | .enter, gate, ⟨todo, answers, .holding e⟩ =>
    some (gate, ⟨todo, answers, .running e e.program (Scope.begin gate.ledger e.access)⟩)
  | .ask, gate, ⟨todo, answers, .running e (.step q next) s⟩ =>
    some (gate, ⟨todo, answers, .running e (next (s.run q).1) (s.run q).2⟩)
  | .finish, gate, ⟨todo, answers, .running e (.done response) s⟩ =>
    let (ending, ledger) := s.close .commit
    some ({ gate with ledger },
      ⟨todo, answers, .leaving (e.response (ending.map fun _ => response))⟩)
  | .finish, gate, ⟨todo, answers, .running e (.fail fault) s⟩ =>
    let (_, ledger) := s.close .abandon
    some ({ gate with ledger }, ⟨todo, answers, .leaving (e.refusal fault)⟩)
  | .leave, gate, ⟨_ :: todo, answers, .leaving response⟩ =>
    some ((gate.answer .unlock).2, ⟨todo, answers ++ [response], .idle⟩)
  | _, _, _ => none

/-- A turnstile and its callers. -/
structure Hall (ι : Type) where
  gate : Turnstile
  callers : ι → Caller

namespace Hall

variable {ι : Type} [DecidableEq ι]

/-- The ledger is free and no request is begun. -/
def opening (start : Ledger) (requests : ι → List (Except Malformed Request)) : Hall ι where
  gate := { ledger := start }
  callers i := { todo := requests i }

/-- The hall after a move of one of the callers, if the move is possible. -/
def step? (h : Hall ι) : ι × Move → Option (Hall ι)
  | (i, m) =>
    match (h.callers i).move? m h.gate with
    | some (gate, caller) => some { gate, callers := Function.update h.callers i caller }
    | none => none

/-- The hall after some moves, if all of them are possible. -/
def run? (h : Hall ι) : List (ι × Move) → Option (Hall ι)
  | [] => some h
  | move :: moves => (h.step? move).bind (·.run? moves)

end Hall

/-- The callers who are granted the hold, in the order of the grants. -/
def grants {ι : Type} (moves : List (ι × Move)) : List ι :=
  (moves.filter (·.2 = .grant)).map Prod.fst

/-- What belongs to one of the callers. -/
def share {ι α : Type} [DecidableEq ι] (i : ι) (xs : List (ι × α)) : List α :=
  (xs.filter (·.1 = i)).map Prod.snd

end TransferDesk
