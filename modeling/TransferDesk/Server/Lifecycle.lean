import TransferDesk.Roster
/-!
# The life of the server

A `Lifecycle` is stopped, listening, or draining: it has been told to stop and waits for its
workers. From a start to the end of the stop after it there is a `Service`, which is the accept loop
with its tracker of tasks: it accepts connections and knows the workers that the stop has to wait
for. An attempt to accept that fails is no event. There is a worker for every connection, and the
roster lists the connections whose worker has not ended. The roster outlives the services.

`Lifecycle.next?` says which events are possible and what they lead to. A service accepts
connections until it takes notice of the signal to end, so a connection can still be accepted after
the stop has begun. The stop is over when accepting has ended and no worker is left that the service
knows of.
-/

namespace TransferDesk

/-- What runs between a start and the end of the stop after it. -/
structure Service where
  /-- The address at which it listens. -/
  address : String
  /-- Whether it and its workers have been told to end. -/
  signalled : Bool := false
  accepting : Bool := true
  /-- The numbers of its connections that are being served. -/
  tracked : List Nat := []
deriving DecidableEq, Repr

/-- Whether the server takes connections. -/
inductive Phase where
  | stopped
  | listening (service : Service)
  /-- The stop has begun. -/
  | draining (service : Service)
deriving DecidableEq, Repr

namespace Phase

/-- The service of a server that is not stopped. -/
def service? : Phase → Option Service
  | stopped => none
  | listening service => some service
  | draining service => some service

/-- The phase with another service. -/
def update (f : Service → Service) : Phase → Phase
  | stopped => stopped
  | listening service => listening (f service)
  | draining service => draining (f service)

end Phase

/-- What can happen to a server. -/
inductive Event where
  /-- A start that binds the address. -/
  | started (address : String)
  /-- A start that does not get to bind an address. -/
  | startRefused
  | stopBegun
  | acceptingEnded
  | accepted (peer : String)
  | workerEnded (number : Nat)
  | stopDone
deriving DecidableEq, Repr

/-- The phase of a server, its workers and its connections. -/
structure Lifecycle where
  phase : Phase := .stopped
  /-- The numbers of the connections that are being served. -/
  workers : List Nat := []
  roster : Roster := {}
deriving DecidableEq, Repr

namespace Lifecycle

/-- The address at which the server listens. -/
def address? (l : Lifecycle) : Option String :=
  match l.phase with
  | .listening service => some service.address
  | _ => none

/-- Whether the server is running. -/
def isRunning (l : Lifecycle) : Bool :=
  match l.phase with
  | .listening service => !service.signalled
  | _ => false

/-- The state after a connection is accepted. Its worker begins. -/
def accept (l : Lifecycle) (peer : String) : Lifecycle :=
  let number := l.roster.nextNumber
  { phase := l.phase.update fun service => { service with tracked := service.tracked ++ [number] }
    workers := l.workers ++ [number]
    roster := l.roster.enter peer }

/-- The state after a worker has ended, for whatever reason. -/
def endWorker (l : Lifecycle) (number : Nat) : Lifecycle where
  phase := l.phase.update fun service =>
    { service with tracked := service.tracked.filter (· ≠ number) }
  workers := l.workers.filter (· ≠ number)
  roster := l.roster.leave number

/-- The state after an event, if the event is possible. A server that is listening stays as it is
when it is started, and so does one that is stopped when it is told to stop. -/
def next? (l : Lifecycle) : Event → Option Lifecycle
  | .started address =>
    match l.phase with
    | .stopped => some { l with phase := .listening { address } }
    | .listening _ => some l
    | .draining _ => none
  | .startRefused => if l.phase = .stopped then some l else none
  | .stopBegun =>
    match l.phase with
    | .stopped => some l
    | .listening service => some { l with phase := .draining { service with signalled := true } }
    | .draining _ => none
  | .acceptingEnded =>
    match l.phase.service? with
    | some service =>
      if service.signalled ∧ service.accepting then
        some { l with phase := l.phase.update fun service => { service with accepting := false } }
      else none
    | none => none
  | .accepted peer =>
    match l.phase.service? with
    | some service => if service.accepting then some (l.accept peer) else none
    | none => none
  | .workerEnded number => if number ∈ l.workers then some (l.endWorker number) else none
  | .stopDone =>
    match l.phase with
    | .draining service =>
      if service.accepting = false ∧ service.tracked = [] then some { l with phase := .stopped }
      else none
    | _ => none

/-- The state after events, if all of them are possible. -/
def run? (l : Lifecycle) : List Event → Option Lifecycle
  | [] => some l
  | event :: events => (l.next? event).bind (·.run? events)

/-- The events of a stop at which all workers end in order and nothing more is accepted. -/
def stopEvents (l : Lifecycle) : List Event :=
  if l.isRunning then
    .stopBegun :: .acceptingEnded :: l.workers.map .workerEnded ++ [.stopDone]
  else [.stopBegun]

end Lifecycle

end TransferDesk
