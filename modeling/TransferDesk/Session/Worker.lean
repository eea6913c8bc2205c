import TransferDesk.Session
/-!
# Workers and the signal to shut down

A `Worker` serves a session on a server that may shut down at any moment, which it learns from the
shutdown token: the signal is the cancellation of the token. It is in one of these phases:

* `selecting`: it is between two frames, and either goes for the next frame or heeds the signal to
  shut down. It waits if it has found that no frame is there;
* `answering` a frame that it has taken;
* `writing` a response;
* `done`, because the session was closed or its stream has failed.

The signal may come in any phase, but only a worker that is selecting heeds it. If the next frame is
there as well, nothing says which of the two it goes for. While it waits it polls the stream, and
what arrives without completing a frame stays in the buffer.

`Worker.step` lets one thing happen, and has no effect if that is not possible. A list of actions is
a possible course of events, with any timing of arrivals, signal and choices.
`Worker.exists_run_serve` says that to serve a session is one of these courses.
-/

namespace TransferDesk

namespace Worker

/-- How a worker has ended. -/
inductive Exit where
  | peerClosed
  /-- The signal was heeded, by a worker that was waiting or that had not looked for a frame. -/
  | shutdown (waiting : Bool)
  | readFailed (fault : TransportFault)
  | writeFailed (fault : TransportFault)
deriving DecidableEq, Repr

/-- What a worker reports in the end. -/
def Exit.result : Exit → Except TransportFault CloseReason
  | peerClosed => .ok .peerClosed
  | shutdown _ => .ok .shutdown
  | readFailed fault => .error fault
  | writeFailed fault => .error fault

/-- What a worker is doing. -/
inductive Phase where
  /-- It is between two frames, and waits or has not looked for the next one yet. -/
  | selecting (waiting : Bool)
  | answering (frame : Frame)
  | writing (response : Response)
  | done (exit : Exit)
deriving DecidableEq, Repr

/-- What can happen to a worker. -/
inductive Action where
  /-- The signal to shut down is given. -/
  | signal
  /-- The worker heeds the signal. -/
  | heed
  /-- The worker looks for a frame when so many more reads have arrived, and none is complete. -/
  | poll (reads : Nat)
  /-- The next frame is taken, or there is none any more. -/
  | take
  | answer
  | write
deriving DecidableEq, Repr

end Worker

/-- A session in the hands of a worker. -/
structure Worker (σ : Type) where
  session : Session σ
  phase : Worker.Phase := .selecting false
  /-- Whether the signal to shut down has been given. -/
  signalled : Bool := false
  /-- The frames that have been answered, empty lines included, oldest first. -/
  handled : List Frame := []
deriving DecidableEq, Repr

namespace Worker

variable {σ : Type}

/-- A worker that begins with a session. -/
def begin (session : Session σ) : Worker σ :=
  { session }

/-- The worker has ended. -/
def finish (w : Worker σ) (session : Session σ) (exit : Exit) : Worker σ :=
  { w with session, phase := .done exit }

/-- Ends the session if the signal has been given. -/
def heed (w : Worker σ) (waiting : Bool) : Worker σ :=
  if w.signalled then w.finish w.session.close (.shutdown waiting) else w

/-- Lets some more reads arrive, if they complete no frame. -/
def poll (w : Worker σ) (reads : Nat) : Worker σ :=
  match w.session.buffer.next ⟨w.session.inbox.arrivals.take reads, .silent⟩ with
  | (.waiting, buffer, _) =>
    { w with
      session := { w.session with
        buffer
        inbox := ⟨w.session.inbox.arrivals.drop reads, w.session.inbox.ending⟩ }
      phase := .selecting true }
  | _ => w

/-- Takes the next frame, or ends because there is none. -/
def take (w : Worker σ) : Worker σ :=
  match w.session.buffer.next w.session.inbox with
  | (.frame frame, buffer, inbox) =>
    { w with session := { w.session with buffer, inbox }, phase := .answering frame }
  | (.ended, buffer, inbox) => w.finish { w.session with buffer, inbox }.close .peerClosed
  | (.failed fault, buffer, inbox) =>
    w.finish { w.session with buffer, inbox } (.readFailed fault)
  | (.waiting, _, _) => w

/-- Answers a frame. -/
def answer [Bank σ] (w : Worker σ) (frame : Frame) : Worker σ :=
  let (response, bank) := frame.reply w.session.bank
  { w with
    session := { w.session with bank }
    phase := match response with
      | none => .selecting false
      | some response => .writing response
    handled := w.handled ++ [frame] }

/-- Writes a response. -/
def write (w : Worker σ) (response : Response) : Worker σ :=
  match w.session.outbox.send response.bytes with
  | (none, outbox) =>
    { w with
      session := { w.session with outbox, answered := w.session.answered + 1 }
      phase := .selecting false }
  | (some fault, outbox) => w.finish { w.session with outbox } (.writeFailed fault)

variable [Bank σ]

/-- Lets one thing happen, if it is possible. -/
def step (w : Worker σ) (action : Action) : Worker σ :=
  match action, w.phase with
  | .signal, _ => { w with signalled := true }
  | .heed, .selecting waiting => w.heed waiting
  | .poll reads, .selecting _ => w.poll reads
  | .take, .selecting _ => w.take
  | .answer, .answering frame => w.answer frame
  | .write, .writing response => w.write response
  | _, _ => w

/-- Lets things happen one after the other. -/
def run (w : Worker σ) (actions : List Action) : Worker σ :=
  actions.foldl step w

theorem run_cons (w : Worker σ) (action : Action) (actions : List Action) :
    w.run (action :: actions) = (w.step action).run actions := rfl

theorem run_append (w : Worker σ) (actions more : List Action) :
    w.run (actions ++ more) = (w.run actions).run more :=
  List.foldl_append

section Steps

variable {w : Worker σ} {waiting : Bool} {frame : Frame} {response : Response}

theorem step_poll (h : w.phase = .selecting waiting) (reads : Nat) :
    w.step (.poll reads) = w.poll reads := by
  unfold step
  rw [h]

theorem step_take (h : w.phase = .selecting waiting) : w.step .take = w.take := by
  unfold step
  rw [h]

theorem step_answer (h : w.phase = .answering frame) : w.step .answer = w.answer frame := by
  unfold step
  rw [h]

theorem step_write (h : w.phase = .writing response) : w.step .write = w.write response := by
  unfold step
  rw [h]

end Steps

/-! ## Serving a session is a course of events -/

/-- A worker that has taken a frame deals with it as the session does. -/
theorem exists_run_answer {w : Worker σ} {frame : Frame} (hw : w.phase = .answering frame) :
    ∃ actions, (w.run actions).session = (w.session.answer frame).2 ∧
      ((w.session.answer frame).1 = none ∧ (w.run actions).phase = .selecting false ∨
        ∃ fault, (w.session.answer frame).1 = some (.failed fault) ∧
          (w.run actions).phase = .done (.writeFailed fault)) := by
  rcases hreply : frame.reply w.session.bank with ⟨_ | response, bank⟩
  · refine ⟨[.answer], ?_⟩
    rw [run_cons, step_answer hw]
    simp [run, answer, Session.answer, hreply]
  · have hwriting : (w.answer frame).phase = .writing response := by
      simp [answer, hreply]
    refine ⟨[.answer, .write], ?_⟩
    rw [run_cons, step_answer hw, run_cons, step_write hwriting]
    rcases hsend : w.session.outbox.send response.bytes with ⟨_ | fault, outbox⟩ <;>
      simp [run, answer, write, finish, Session.answer, Session.write, hreply, hsend]

/-- A worker that is selecting while a frame is there deals with it as the session does. -/
theorem exists_run_frame {w : Worker σ} {waiting : Bool} (hw : w.phase = .selecting waiting)
    {frame : Frame} {buffer : FrameBuffer} {inbox : Inbox}
    (hnext : w.session.buffer.next w.session.inbox = (.frame frame, buffer, inbox)) :
    ∃ actions, (w.run actions).session = w.session.turn.2 ∧
      (w.session.turn.1 = none ∧ (w.run actions).phase = .selecting false ∨
        ∃ fault, w.session.turn.1 = some (.failed fault) ∧
          (w.run actions).phase = .done (.writeFailed fault)) := by
  have htake : w.step .take =
      { w with session := { w.session with buffer, inbox }, phase := .answering frame } := by
    rw [step_take hw, take, hnext]
  have hturn : w.session.turn = ({ w.session with buffer, inbox } : Session σ).answer frame := by
    rw [Session.turn, hnext]
  have hanswering : (w.step .take).phase = .answering frame := by
    rw [htake]
  obtain ⟨actions, hrun⟩ := exists_run_answer hanswering
  rw [htake] at hrun
  refine ⟨.take :: actions, ?_⟩
  rw [hturn, run_cons, htake]
  exact hrun

/-- A worker whose stream has nothing more to give may wait until it gets the signal. -/
theorem exists_run_idle {w : Worker σ} {waiting : Bool} (hw : w.phase = .selecting waiting)
    {buffer : FrameBuffer} {inbox : Inbox}
    (hnext : w.session.buffer.next w.session.inbox = (.waiting, buffer, inbox)) :
    ∃ actions, (w.run actions).session = ({ w.session with buffer, inbox } : Session σ).close ∧
      (w.run actions).phase = .done (.shutdown true) := by
  obtain ⟨hending, rfl⟩ := FrameBuffer.next_eq_waiting hnext
  have hinbox : w.session.inbox = ⟨w.session.inbox.arrivals, .silent⟩ := by
    rw [← hending]
  rw [hinbox] at hnext
  have hpoll : w.poll w.session.inbox.arrivals.length =
      { w with
        session := { w.session with buffer, inbox := ⟨[], .silent⟩ }, phase :=
          .selecting true } := by
    simp [poll, hending, hnext]
  refine ⟨[.poll w.session.inbox.arrivals.length, .signal, .heed], ?_⟩
  rw [run_cons, step_poll hw, hpoll]
  exact ⟨rfl, rfl⟩

/-- To serve a session to its end is a possible course of events for a worker that is selecting. -/
theorem exists_run_serve {w : Worker σ} {waiting : Bool} (hw : w.phase = .selecting waiting) :
    ∃ actions exit, (w.run actions).phase = .done exit ∧
      (exit.result, (w.run actions).session) = w.session.serve := by
  -- one turn of the session at a time, and each begins with the search for a frame
  induction hs : w.session using Session.run.induct generalizing w waiting with
  | case1 s halt after hturn =>
    subst hs
    rw [Session.serve, Session.run_of_halt hturn]
    rcases hnext : w.session.buffer.next w.session.inbox with ⟨_ | _ | fault | _, buffer, inbox⟩
    · -- a frame has halted the session, so its response could not be written
      obtain ⟨actions, hsession, ⟨hnone, -⟩ | ⟨fault, hfault, hphase⟩⟩ :=
        exists_run_frame hw hnext
      · simp [hturn] at hnone
      · rw [hturn] at hsession hfault
        obtain rfl : halt = .failed fault := Option.some.inj hfault
        exact ⟨actions, .writeFailed fault, hphase, by rw [hsession]; rfl⟩
    · rw [Session.turn, hnext] at hturn
      cases hturn
      have htake : w.take =
          w.finish ({ w.session with buffer, inbox } : Session σ).close .peerClosed := by
        rw [take, hnext]
      refine ⟨[.take], .peerClosed, ?_⟩
      rw [run_cons, step_take hw, htake]
      exact ⟨rfl, rfl⟩
    · rw [Session.turn, hnext] at hturn
      cases hturn
      have htake : w.take = w.finish { w.session with buffer, inbox } (.readFailed fault) := by
        rw [take, hnext]
      refine ⟨[.take], .readFailed fault, ?_⟩
      rw [run_cons, step_take hw, htake]
      exact ⟨rfl, rfl⟩
    · -- the server is shut down once nothing more arrives
      rw [Session.turn, hnext] at hturn
      cases hturn
      obtain ⟨actions, hsession, hphase⟩ := exists_run_idle hw hnext
      exact ⟨actions, .shutdown true, hphase, by rw [hsession]; rfl⟩
  | case2 s after hturn ih =>
    subst hs
    rw [Session.serve, Session.run_of_turn hturn]
    rcases hnext : w.session.buffer.next w.session.inbox with ⟨_ | _ | fault | _, buffer, inbox⟩
    · obtain ⟨actions, hsession, ⟨-, hphase⟩ | ⟨fault, hfault, -⟩⟩ := exists_run_frame hw hnext
      · rw [hturn] at hsession
        obtain ⟨more, exit, hdone, hserve⟩ := ih hphase hsession
        refine ⟨actions ++ more, exit, ?_⟩
        rw [run_append]
        exact ⟨hdone, hserve⟩
      · simp [hturn] at hfault
    -- the session goes on only after a frame
    all_goals
      rw [Session.turn, hnext] at hturn
      simp at hturn

end Worker

end TransferDesk
