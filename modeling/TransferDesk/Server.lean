import TransferDesk.Server.Lifecycle
import TransferDesk.Session
import TransferDesk.Settings
/-!
# A server and its clients

A `Server` is the desk behind a network: it is started and stopped, and clients open connections to
it, send bytes, read lines and hang up. The network decides which hosts can be bound and whether
clients get through at all. It gives no reason why a host cannot be bound. Everything a client sends
is served before anything else happens.
-/

namespace TransferDesk

/-- What lies around a server. -/
structure Network where
  /-- The address that binding a host gives, if it can be bound. -/
  bind? : String → Option String
  /-- Whether clients reach a server that listens. -/
  reachable : Bool

namespace Network

/-- The address of a host by its name. There is none if the name holds a NUL. -/
def nameOf? (host : String) : Option String :=
  if host.toList.contains '\x00' then none else some host

/-- A machine whose connections all get through. -/
def loopback : Network := ⟨nameOf?, true⟩

/-- A machine to which no connection gets through. -/
def isolated : Network := ⟨nameOf?, false⟩

end Network

/-- A client and its end of the connection. -/
structure Client where
  /-- The name by which the client is known. -/
  name : Nat
  /-- The number of the connection. -/
  number : Nat
  /-- The server's buffer for the connection. -/
  buffer : FrameBuffer
  /-- What the server has written and the client has not read. -/
  unread : List UInt8 := []
  /-- Whether the server still serves the connection. -/
  served : Bool := true
deriving DecidableEq, Repr

/-- The desk behind a network. -/
structure Server (σ : Type) where
  settings : Settings
  network : Network
  bank : σ
  life : Lifecycle := {}
  /-- The last address at which the server has listened. -/
  lastAddress : Option String := none
  clients : List Client := []

/-- What comes of an attempt to connect. -/
inductive Connected where
  | accepted
  /-- The server has never listened. -/
  | noAddress
  | unreachable
  | refused
deriving DecidableEq, Repr

/-- What a client gets when it reads a line. -/
inductive LineRead where
  | line (bytes : List UInt8)
  /-- The stream is at its end. -/
  | closed
deriving DecidableEq, Repr

namespace Server

variable {σ : Type}

/-- The state after events, or the same state if they are not possible. -/
def happen (s : Server σ) (events : List Event) : Server σ :=
  { s with life := (s.life.run? events).getD s.life }

/-- Starts the server, unless it is running. The answer is the address at which it listens. -/
def start (s : Server σ) : Except Fault String × Server σ :=
  match s.life.address? with
  | some address => (.ok address, s)
  | none =>
    match s.network.bind? s.settings.host with
    | some address =>
      (.ok address, { s.happen [.started address] with lastAddress := some address })
    | none =>
      (.error (.bindFailed s.settings.bindAddress "cannot be bound"), s.happen [.startRefused])

/-- Stops the server and ends all its connections. -/
def stop (s : Server σ) : Server σ :=
  let s := s.happen s.life.stopEvents
  { s with clients := s.clients.map fun c => { c with served := false } }

/-- The client of a given name. -/
def client? (s : Server σ) (name : Nat) : Option Client :=
  s.clients.find? (·.name = name)

/-- The server with a client in the place of the one of the same name. -/
def setClient (s : Server σ) (c : Client) : Server σ :=
  { s with clients := s.clients.map fun d => if d.name = c.name then c else d }

variable [Bank σ]

/-- Serves what has arrived from a client. -/
def serveClient (s : Server σ) (c : Client) (chunks : List Arrival) (ending : Ending) :
    Halt × Server σ :=
  let session : Session σ :=
    { bank := s.bank, buffer := c.buffer, inbox := .ofChunks c.buffer.size chunks ending }
  let (halt, session) := session.run
  let c := { c with buffer := session.buffer, unread := c.unread ++ session.outbox.delivered }
  let s := { s with bank := session.bank }
  match halt with
  | .idle => (halt, s.setClient c)
  | _ => (halt, (s.happen [.workerEnded c.number]).setClient { c with served := false })

/-- Ends the connection of a client. What is left of its input is served first. -/
def hangUp (s : Server σ) (name : Nat) : Option (Server σ) :=
  match s.client? name with
  | none => none
  | some c =>
    let s := if c.served then (s.serveClient c [] .closed).2 else s
    some { s with clients := s.clients.filter (·.name ≠ name) }

/-- Opens a connection for a client, and ends the one that the client had before. -/
def connect (s : Server σ) (name : Nat) : Connected × Server σ :=
  match s.lastAddress with
  | none => (.noAddress, s)
  | some address =>
    if ¬ s.network.reachable then (.unreachable, s)
    else if ¬ s.life.isRunning then (.refused, s)
    else
      let number := s.life.roster.nextNumber
      let s := s.happen [.accepted address]
      let s := (s.hangUp name).getD s
      let client : Client := { name, number, buffer := s.settings.buffer }
      (.accepted, { s with clients := s.clients ++ [client] })

/-- Sends bytes from a client. They are lost if its connection is not served any more. -/
def send (s : Server σ) (name : Nat) (bytes : List UInt8) : Option (Server σ) :=
  match s.client? name with
  | none => none
  | some c =>
    if c.served ∧ bytes ≠ [] then some (s.serveClient c [.bytes bytes] .silent).2 else some s

omit [Bank σ] in
/-- Reads lines at the end of a client. -/
def read (s : Server σ) (name : Nat) : Nat → Option (List LineRead × Server σ)
  | 0 => (s.client? name).map fun _ => ([], s)
  | lines + 1 =>
    match s.client? name with
    | none => none
    | some c =>
      match splitLine? c.unread with
      | none => (s.read name lines).map fun (reads, s) => (.closed :: reads, s)
      | some (line, unread) =>
        ((s.setClient { c with unread }).read name lines).map fun (reads, s) =>
          (.line (line ++ [lineFeed]) :: reads, s)

end Server

end TransferDesk
