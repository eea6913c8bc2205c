import TransferDesk.Desk
import TransferDesk.FrameBuffer.Backlog
/-!
# Sessions

A `Session` is one connection being served, which is the work of a connection worker: frames are
taken from the inbox one at a time, answered by the desk, and the answers are written to the outbox.
A frame is answered and its answer is written before the next frame is read. An empty line gets no
answer, an oversized frame gets an error.

A session goes on until the stream ends, fails, or has nothing more to read for now. It is closed
when the peer has closed the stream or when the server shuts down; a session whose stream has failed
is left as it is. Nothing of what happens is logged.
-/

namespace TransferDesk

/-- The text of the error for an oversized frame. -/
def lineTooLong : String := "Line too long"

/-- Answers a frame, unless it is an empty line. -/
def Frame.reply {σ : Type} [Bank σ] : Frame → σ → Option Response × σ
  | .line [], bank => (none, bank)
  | .line text, bank =>
    let (response, bank) := Desk.answer (Request.ofLine text) bank
    (some response, bank)
  | .oversized, bank => (some (.error lineTooLong), bank)

/-- A connection and the bank behind it. -/
structure Session (σ : Type) where
  bank : σ
  buffer : FrameBuffer
  inbox : Inbox
  outbox : Outbox := {}
  /-- How many responses have been written. -/
  answered : Nat := 0
deriving DecidableEq, Repr

/-- Why a session does not go on. -/
inductive Halt where
  | peerClosed
  | failed (fault : TransportFault)
  /-- Nothing more has arrived. -/
  | idle
deriving DecidableEq, Repr

/-- Why a session was closed. -/
inductive CloseReason where
  | peerClosed
  | shutdown
deriving DecidableEq, Repr

namespace Session

variable {σ : Type} [Bank σ]

/-- Writes a response. -/
def write (s : Session σ) (response : Response) : Option Halt × Session σ :=
  match s.outbox.send response.bytes with
  | (none, outbox) => (none, { s with outbox, answered := s.answered + 1 })
  | (some fault, outbox) => (some (.failed fault), { s with outbox })

/-- Answers a frame. -/
def answer (s : Session σ) (frame : Frame) : Option Halt × Session σ :=
  match frame.reply s.bank with
  | (none, bank) => (none, { s with bank })
  | (some response, bank) => write { s with bank } response

/-- Takes the next frame and answers it, or says why there is none. -/
def turn (s : Session σ) : Option Halt × Session σ :=
  match s.buffer.next s.inbox with
  | (.frame frame, buffer, inbox) => answer { s with buffer, inbox } frame
  | (.ended, buffer, inbox) => (some .peerClosed, { s with buffer, inbox })
  | (.failed fault, buffer, inbox) => (some (.failed fault), { s with buffer, inbox })
  | (.waiting, buffer, inbox) => (some .idle, { s with buffer, inbox })

/-- How much work the session can still have. -/
def backlog (s : Session σ) : Nat :=
  s.buffer.backlog s.inbox

omit [Bank σ] in
theorem backlog_write (s : Session σ) (response : Response) :
    (s.write response).2.backlog = s.backlog := by
  unfold write
  split <;> rfl

theorem backlog_answer (s : Session σ) (frame : Frame) :
    (s.answer frame).2.backlog = s.backlog := by
  unfold answer
  split
  · rfl
  · exact backlog_write _ _

theorem backlog_turn {s : Session σ} (h : s.turn.1 = none) : s.turn.2.backlog < s.backlog := by
  unfold turn at *
  split at h
  · rename_i frame buffer inbox heq
    rw [backlog_answer]
    exact FrameBuffer.backlog_next heq
  all_goals simp at h

/-- Takes turns until the session halts. -/
def run (s : Session σ) : Halt × Session σ :=
  match _h : s.turn with
  | (some halt, after) => (halt, after)
  | (none, after) => run after
termination_by s.backlog
decreasing_by
  have := backlog_turn (s := s) (by rw [_h])
  rwa [_h] at this

theorem run_of_halt {s after : Session σ} {halt : Halt} (h : s.turn = (some halt, after)) :
    s.run = (halt, after) := by
  rw [run]
  split
  · rename_i heq
    rw [h] at heq
    simp_all
  · rename_i heq
    rw [h] at heq
    simp at heq

theorem run_of_turn {s after : Session σ} (h : s.turn = (none, after)) : s.run = after.run := by
  rw [run]
  split
  · rename_i heq
    rw [h] at heq
    simp at heq
  · rename_i heq
    rw [h] at heq
    simp_all

/-- Closes the stream for writing. -/
def close (s : Session σ) : Session σ :=
  { s with outbox := { s.outbox with closed := true } }

/-- Serves a connection to its end. The server is shut down once nothing more arrives on a stream
that is not closed. The answer is the reason for the end, unless the stream has failed. -/
def serve (s : Session σ) : Except TransportFault CloseReason × Session σ :=
  match s.run with
  | (.peerClosed, s) => (.ok .peerClosed, s.close)
  | (.failed fault, s) => (.error fault, s)
  | (.idle, s) => (.ok .shutdown, s.close)

end Session

end TransferDesk
