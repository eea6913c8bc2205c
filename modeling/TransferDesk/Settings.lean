import TransferDesk.FrameBuffer
import TransferDesk.Text.Integer
/-!
# Settings of the server

The configuration of the server: where it listens and how it reads from its connections. A backlog
or a buffer size of zero stands for the default.
-/

namespace TransferDesk

/-- What the server needs to know before it starts. -/
structure Settings where
  host : String := "0.0.0.0"
  port : Nat := 8080
  /-- How many connections may wait to be accepted. -/
  backlog : Nat := 128
  /-- The most bytes that one read takes, and that a line may have. -/
  bufferSize : Nat := 1024
  framing : Framing := .byRead
deriving DecidableEq, Repr

namespace Settings

/-- The number, or the default for zero. -/
def orDefault (default n : Nat) : Nat :=
  if n = 0 then default else n

/-- Settings with the default for a backlog or a buffer size of zero. -/
def create (host : String) (port backlog bufferSize : Nat) (framing : Framing) : Settings :=
  { host, port, framing, backlog := orDefault 128 backlog, bufferSize := orDefault 1024 bufferSize }

/-- Settings for connections from the same machine, on a port that the system chooses. -/
def loopback : Settings :=
  { host := "127.0.0.1", port := 0 }

/-- The host and the port as one text. A host with colons is put in brackets, unless it already
begins with one. -/
def bindAddress (s : Settings) : String :=
  let host :=
    if s.host.toList.contains ':' ∧ s.host.toList.head? ≠ some '[' then "[" ++ s.host ++ "]"
    else s.host
  host ++ ":" ++ Text.integerText s.port

/-- The buffer for a new connection. -/
def buffer (s : Settings) : FrameBuffer :=
  .create s.framing s.bufferSize

end Settings

end TransferDesk
