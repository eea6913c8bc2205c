import TransferDesk.Proofs.Framing.Polling
import TransferDesk.Proofs.Session.Conversation
import TransferDesk.Proofs.Session.Lines
import TransferDesk.Proofs.Session.Shutdown
/-!
# What ends a session

Nothing but the stream and the signal ends a session, whatever the bank does at any request.

* `Worker.Ends` lists the actions that end a session, each with what the stream or the signal had to
  say, and `Worker.exists_ends` finds the one that has ended a course of events.
* `Worker.Move.deliveries`: no move loses a frame or takes one twice, polls without a frame
  included, so the frames that a worker takes are those that the buffer would give if it were asked
  without a pause.
* `Worker.ended_by_stream_or_signal` puts this together with the lines that have been written by
  then.
-/

namespace TransferDesk

namespace Worker

variable {σ : Type}

/-- What a worker reports, once it has ended. -/
def result? (w : Worker σ) : Option (Except TransportFault CloseReason) :=
  match w.phase with
  | .done exit => some exit.result
  | _ => none

/-- The worker is between two frames, and a read meets the end of the stream before there is
another. -/
def AtEnd (w : Worker σ) : Prop :=
  (∃ waiting, w.phase = .selecting waiting) ∧ w.session.buffer.MeetsEnd w.session.inbox

variable [Bank σ]

/-! ## The action that ends a session -/

/-- The actions that end a session, each with its reason. -/
inductive Ends (w : Worker σ) : Action → Exit → Prop
  | heed {waiting : Bool} (hphase : w.phase = .selecting waiting) (hsignal : w.signalled = true) :
    Ends w .heed (.shutdown waiting)
  | peerClosed {waiting : Bool} {buffer : FrameBuffer} {inbox : Inbox}
    (hphase : w.phase = .selecting waiting)
    (hnext : w.session.buffer.next w.session.inbox = (.ended, buffer, inbox)) :
    Ends w .take .peerClosed
  | readFailed {waiting : Bool} {fault : TransportFault} {buffer : FrameBuffer} {inbox : Inbox}
    (hphase : w.phase = .selecting waiting)
    (hnext : w.session.buffer.next w.session.inbox = (.failed fault, buffer, inbox)) :
    Ends w .take (.readFailed fault)
  | writeFailed {response : Response} {fault : TransportFault} {outbox : Outbox}
    (hphase : w.phase = .writing response)
    (hsend : w.session.outbox.send response.bytes = (some fault, outbox)) :
    Ends w .write (.writeFailed fault)

/-- There is no other way for a session to end. -/
theorem ends_of_step {w : Worker σ} {action : Action} {exit : Exit}
    (hopen : ∀ exit, w.phase ≠ .done exit) (h : (w.step action).phase = .done exit) :
    Ends w action exit := by
  have hstay : w.phase ≠ .done exit := hopen exit
  unfold step at h
  split at h
  · exact absurd h hstay
  · unfold heed at h
    split at h
    · cases h
      exact .heed ‹_› ‹_›
    · exact absurd h hstay
  · unfold poll at h
    split at h
    · cases h
    · exact absurd h hstay
  · unfold take at h
    split at h
    · cases h
    · cases h
      exact .peerClosed ‹_› ‹_›
    · cases h
      exact .readFailed ‹_› ‹_›
    · exact absurd h hstay
  · rename_i frame hphase
    unfold answer at h
    rcases hreply : frame.reply w.session.bank with ⟨_ | response, bank⟩
    all_goals
      rw [hreply] at h
      cases h
  · unfold write at h
    split at h
    · cases h
    · cases h
      exact .writeFailed ‹_› ‹_›
  · exact absurd h hstay

/-- If a worker has ended, one of its actions has ended the session. -/
theorem exists_ends {w : Worker σ} {actions : List Action} {exit : Exit}
    (hopen : ∀ exit, w.phase ≠ .done exit) (h : (w.run actions).phase = .done exit) :
    ∃ before action after, actions = before ++ action :: after ∧
      Ends (w.run before) action exit := by
  induction actions generalizing w with
  | nil => exact absurd h (hopen exit)
  | cons action actions ih =>
    rw [run_cons] at h
    by_cases hdone : ∃ exit, (w.step action).phase = .done exit
    · -- nothing happens to the worker after it has ended
      obtain ⟨first, hfirst⟩ := hdone
      have hsame := (run_of_done hfirst actions).2.2
      rw [h] at hsame
      obtain rfl := Phase.done.inj hsame
      exact ⟨[], action, actions, rfl, ends_of_step hopen hfirst⟩
    · obtain ⟨before, last, after, rfl, hends⟩ := ih (not_exists.1 hdone) h
      exact ⟨action :: before, last, after, rfl, hends⟩

/-- A worker that finds the end of the stream ends because of it. -/
theorem AtEnd.run_take {w : Worker σ} (h : w.AtEnd) (after : List Action) :
    (w.run (.take :: after)).phase = .done .peerClosed := by
  obtain ⟨⟨waiting, hphase⟩, hend⟩ := h
  rcases hnext : w.session.buffer.next w.session.inbox with ⟨delivery, buffer, inbox⟩
  have hended := (FrameBuffer.next_eq_ended_iff _ _).2 hend
  rw [hnext] at hended
  obtain rfl : delivery = .ended := hended
  have htake : (w.step .take).phase = .done .peerClosed := by
    rw [step_take hphase, take, hnext]
    rfl
  exact (run_of_done htake after).2.2

/-- Nothing but the signal itself gives the signal. -/
theorem signalled_step (w : Worker σ) {action : Action} (h : action ≠ .signal) :
    (w.step action).signalled = w.signalled := by
  unfold step
  split
  · exact absurd rfl h
  · unfold heed
    split <;> rfl
  · unfold poll
    split <;> rfl
  · unfold take
    split <;> rfl
  · rfl
  · unfold write
    split <;> rfl
  · rfl

theorem signal_mem_of_signalled {w : Worker σ} {actions : List Action} (hnew : w.signalled = false)
    (h : (w.run actions).signalled = true) : .signal ∈ actions := by
  induction actions generalizing w with
  | nil =>
    rw [run, List.foldl_nil, hnew] at h
    cases h
  | cons action actions ih =>
    by_cases hsignal : action = .signal
    · rw [hsignal]
      exact List.mem_cons_self
    · rw [run_cons] at h
      exact List.mem_cons_of_mem _ (ih ((w.signalled_step hsignal).trans hnew) h)

/-! ## The stream -/

/-- A stream that takes everything does so after every move. -/
theorem Move.willing {w after : Worker σ} (hmove : Move w after) (h : w.session.outbox.Willing) :
    after.session.outbox.Willing := by
  cases hmove with
  | heed => exact ⟨h.unlimited, h.portions, h.grain⟩
  | peerClosed => exact ⟨h.unlimited, h.portions, h.grain⟩
  | write hphase hsend =>
    rename_i response outbox
    have hstill := (h.send response.bytes).2
    rw [hsend] at hstill
    exact hstill
  | writeFailed hphase hsend =>
    rename_i response fault outbox
    have hnever := (h.send response.bytes).1
    rw [hsend] at hnever
    cases hnever
  | _ => exact h

theorem willing_run {w : Worker σ} (h : w.session.outbox.Willing) (actions : List Action) :
    (w.run actions).session.outbox.Willing :=
  run_keeps (P := fun w => w.session.outbox.Willing) (fun hmove => hmove.willing) h actions

omit [Bank σ] in
/-- A stream that takes everything does not end a session by a failure to write. -/
theorem Ends.exit_ne_writeFailed {w : Worker σ} {action : Action} {exit : Exit}
    (h : Ends w action exit) (hwilling : w.session.outbox.Willing) (fault : TransportFault) :
    exit ≠ .writeFailed fault := by
  rintro rfl
  cases h with
  | writeFailed hphase hsend =>
    rename_i response outbox
    have hnever := (hwilling.send response.bytes).1
    rw [hsend] at hnever
    cases hnever

/-- Every move reads the first arrivals. -/
theorem Move.arrivals {w after : Worker σ} (hmove : Move w after) :
    ∃ read, w.session.inbox.arrivals = read ++ after.session.inbox.arrivals := by
  cases hmove with
  | poll hphase harrivals hnext => exact ⟨_, harrivals⟩
  | take hphase hnext =>
    obtain ⟨read, hread, -⟩ := FrameBuffer.reads_of_next hnext
    exact ⟨read, hread⟩
  | peerClosed hphase hnext =>
    obtain ⟨read, hread, -⟩ := FrameBuffer.reads_of_next hnext
    exact ⟨read, hread⟩
  | readFailed hphase hnext =>
    obtain ⟨read, hread, -⟩ := FrameBuffer.reads_of_next hnext
    exact ⟨read, hread⟩
  | _ => exact ⟨[], rfl⟩

theorem arrivals_run (w : Worker σ) (actions : List Action) :
    ∃ read, w.session.inbox.arrivals = read ++ (w.run actions).session.inbox.arrivals := by
  refine run_keeps (P := fun after =>
    ∃ read, w.session.inbox.arrivals = read ++ after.session.inbox.arrivals) ?_ ⟨[], rfl⟩ actions
  rintro u after hmove ⟨read, hread⟩
  obtain ⟨more, hmore⟩ := hmove.arrivals
  exact ⟨read ++ more, by rw [hread, hmore, List.append_assoc]⟩

/-! ## Frames -/

/-- What the buffer has still to give, up to the first time that it gives no frame. -/
def toCome (w : Worker σ) : List Delivery :=
  match w.phase with
  | .done .peerClosed => [.ended]
  | .done (.readFailed fault) => [.failed fault]
  | _ => w.session.buffer.drain w.session.inbox

/-- No move loses a frame or takes one twice. -/
theorem Move.deliveries {w after : Worker σ} (hmove : Move w after) :
    after.taken.map .frame ++ after.toCome = w.taken.map .frame ++ w.toCome := by
  cases hmove with
  | stay => rfl
  | signal => rfl
  | heed hphase => simp [taken, toCome, hphase, finish, Session.close]
  | poll hphase harrivals hnext =>
    rename_i waiting read rest buffer
    have hinbox : w.session.inbox = ⟨read ++ rest, w.session.inbox.ending⟩ := by
      rw [← harrivals]
    have hdrain : w.session.buffer.drain w.session.inbox =
        buffer.drain ⟨rest, w.session.inbox.ending⟩ := by
      rw [hinbox]
      exact FrameBuffer.drain_of_waiting hnext
    simp [taken, toCome, hphase, hdrain]
  | take hphase hnext =>
    simp [taken, toCome, hphase, FrameBuffer.drain_of_frame hnext]
  | peerClosed hphase hnext =>
    have hdrain := FrameBuffer.drain_of_stop hnext (by simp)
    simp [taken, toCome, hphase, finish, hdrain, Session.close]
  | readFailed hphase hnext =>
    have hdrain := FrameBuffer.drain_of_stop hnext (by simp)
    simp [taken, toCome, hphase, finish, hdrain]
  | passOver hphase => simp [taken, toCome, hphase]
  | answer hphase => simp [taken, toCome, hphase]
  | write hphase => simp [taken, toCome, hphase]
  | writeFailed hphase => simp [taken, toCome, hphase, finish]

/-- What a worker has taken and what is to come are what the buffer would give at once. -/
theorem deliveries_run (w : Worker σ) (actions : List Action) :
    (w.run actions).taken.map .frame ++ (w.run actions).toCome =
      w.taken.map .frame ++ w.toCome := by
  refine run_keeps (P := fun after =>
    after.taken.map .frame ++ after.toCome = w.taken.map .frame ++ w.toCome) ?_ rfl actions
  intro u after hmove h
  exact hmove.deliveries.trans h

/-! ## The end of a session -/

omit [Bank σ] in
theorem result?_eq_some_iff {w : Worker σ} {result : Except TransportFault CloseReason} :
    w.result? = some result ↔ ∃ exit, w.phase = .done exit ∧ exit.result = result := by
  unfold result?
  split <;> simp_all

omit [Bank σ] in
theorem begin_open (start : Session σ) (exit : Exit) : (begin start).phase ≠ .done exit := by
  simp [begin]

/-- No session ends by a failure to write on a stream that takes everything. -/
theorem phase_run_ne_writeFailed {start : Session σ} (hwilling : start.outbox.Willing)
    (actions : List Action) (fault : TransportFault) :
    ((begin start).run actions).phase ≠ .done (.writeFailed fault) := by
  intro hphase
  obtain ⟨before, action, after, -, hends⟩ := exists_ends (begin_open start) hphase
  have hstill : ((begin start).run before).session.outbox.Willing := willing_run hwilling before
  exact hends.exit_ne_writeFailed hstill fault rfl

/-- If writing has not failed, no response is cut off, and none is left once the session has
ended. -/
theorem Leaves.of_sound {phase : Phase} {unwritten : List Exchange} {part : List UInt8}
    (h : Leaves phase unwritten part) (hsound : ∀ fault, phase ≠ .done (.writeFailed fault)) :
    part = [] ∧ ((∃ exit, phase = .done exit) → unwritten = []) := by
  cases h with
  | selecting => exact ⟨rfl, fun _ => rfl⟩
  | answering => exact ⟨rfl, fun _ => rfl⟩
  | writing => exact ⟨rfl, by simp⟩
  | writeFailed fault => exact absurd rfl (hsound fault)
  | done => exact ⟨rfl, fun _ => rfl⟩

/-- The exchanges that are written, and the one that may still be to write. -/
theorem written_run {start : Session σ} (hfresh : start.Fresh) (hwilling : start.outbox.Willing)
    (actions : List Action) {w : Worker σ} (hrun : (begin start).run actions = w) :
    ∃ written unwritten, (Frame.exchangeAll w.handled start.bank).1 = written ++ unwritten ∧
      unwritten.length ≤ 1 ∧ (w.result?.isSome → unwritten = []) ∧
      linePieces w.session.outbox.delivered = (Exchange.responses written).map Response.bytes ∧
      w.session.answered = (Exchange.responses written).length := by
  have hsound := phase_run_ne_writeFailed hwilling actions
  obtain ⟨written, unwritten, part, hdelivering⟩ := Delivering.run hfresh actions
  rw [hrun] at hsound hdelivering
  obtain ⟨hall, hleaves, hdelivered, hanswered⟩ := hdelivering
  obtain ⟨rfl, hdone⟩ := hleaves.of_sound hsound
  refine ⟨written, unwritten, congrArg Prod.fst hall, hleaves.length_le, ?_, ?_, hanswered⟩
  · intro hresult
    obtain ⟨result, hresult⟩ := Option.isSome_iff_exists.1 hresult
    obtain ⟨exit, hphase, -⟩ := result?_eq_some_iff.1 hresult
    exact hdone ⟨exit, hphase⟩
  · rw [hdelivered, List.append_nil]
    exact linePieces_flatMap_bytes _

theorem reports_peerClosed_iff (start : Session σ) (actions : List Action) :
    ((begin start).run actions).result? = some (.ok .peerClosed) ↔
      ∃ before after, actions = before ++ .take :: after ∧ ((begin start).run before).AtEnd := by
  constructor
  · intro h
    obtain ⟨exit, hphase, hresult⟩ := result?_eq_some_iff.1 h
    obtain ⟨before, action, after, hactions, hends⟩ := exists_ends (begin_open start) hphase
    cases hends with
    | peerClosed hselecting hnext =>
      refine ⟨before, after, hactions, ⟨_, hselecting⟩, ?_⟩
      exact (FrameBuffer.next_eq_ended_iff _ _).1 (congrArg Prod.fst hnext)
    -- all other exits report something else
    | heed => cases hresult
    | readFailed => cases hresult
    | writeFailed => cases hresult
  · rintro ⟨before, after, rfl, hend⟩
    rw [run_append]
    exact result?_eq_some_iff.2 ⟨.peerClosed, hend.run_take after, rfl⟩

theorem heeded_of_shutdown {start : Session σ} {actions : List Action}
    (h : ((begin start).run actions).result? = some (.ok .shutdown)) :
    ∃ before after, actions = before ++ .heed :: after ∧ .signal ∈ before := by
  obtain ⟨exit, hphase, hresult⟩ := result?_eq_some_iff.1 h
  obtain ⟨before, action, after, hactions, hends⟩ := exists_ends (begin_open start) hphase
  cases hends with
  | heed hselecting hsignal => exact ⟨before, after, hactions, signal_mem_of_signalled rfl hsignal⟩
  | peerClosed => cases hresult
  | readFailed => cases hresult
  | writeFailed => cases hresult

/-- Of the exits with a failure only the one by a read is left on a stream that takes everything. -/
theorem readFailed_of_failure {start : Session σ} (hwilling : start.outbox.Willing)
    {actions : List Action} {fault : TransportFault}
    (h : ((begin start).run actions).result? = some (.error fault)) :
    ((begin start).run actions).phase = .done (.readFailed fault) := by
  obtain ⟨exit, hphase, hresult⟩ := result?_eq_some_iff.1 h
  cases exit with
  | readFailed fault =>
    cases hresult
    exact hphase
  | writeFailed fault => exact absurd hphase (phase_run_ne_writeFailed hwilling actions fault)
  | peerClosed => cases hresult
  | shutdown => cases hresult

/-- The failure that a worker reports is what it has read last. -/
theorem arrivals_of_readFailed {start : Session σ} {actions : List Action} {fault : TransportFault}
    (h : ((begin start).run actions).phase = .done (.readFailed fault)) :
    ∃ read, start.inbox.arrivals =
      read ++ .failure fault :: ((begin start).run actions).session.inbox.arrivals := by
  obtain ⟨before, action, after, rfl, hends⟩ := exists_ends (begin_open start) h
  cases hends with
  | readFailed hselecting hnext =>
    rename_i waiting buffer inbox
    obtain ⟨read, hread⟩ := arrivals_run (begin start) before
    obtain ⟨more, hmore, hlast⟩ := FrameBuffer.reads_of_next hnext
    obtain ⟨front, rfl⟩ := List.getLast?_eq_some_iff.1 (hlast fault rfl)
    have hstep : ((begin start).run before).step .take = ((begin start).run before).finish
        { ((begin start).run before).session with buffer, inbox } (.readFailed fault) := by
      rw [step_take hselecting, take, hnext]
    have hdone : (((begin start).run before).step .take).phase = .done (.readFailed fault) := by
      rw [hstep]
      rfl
    have hinbox : (((begin start).run before).step .take).session.inbox = inbox := by
      rw [hstep]
      rfl
    refine ⟨read ++ front, ?_⟩
    rw [run_append, run_cons, (run_of_done hdone after).1, hinbox]
    calc
      start.inbox.arrivals = read ++ ((begin start).run before).session.inbox.arrivals := hread
      _ = read ++ (front ++ [.failure fault] ++ inbox.arrivals) := by rw [hmore]
      _ = read ++ front ++ .failure fault :: inbox.arrivals := by simp

/-- The frames that are handled are the first that the buffer gives. -/
theorem handled_prefix (start : Session σ) (actions : List Action) :
    ((begin start).run actions).handled.map .frame <+: start.buffer.drain start.inbox := by
  have hall : _ = start.buffer.drain start.inbox := deliveries_run (begin start) actions
  rw [← hall]
  refine List.IsPrefix.trans ?_ (List.prefix_append _ _)
  unfold taken
  split
  · rw [List.map_append]
    exact List.prefix_append _ _
  · exact List.prefix_rfl

/-- Those that are handled are all of them when the stream has ended. -/
theorem drain_of_peerClosed {start : Session σ} {actions : List Action}
    (h : ((begin start).run actions).phase = .done .peerClosed) :
    start.buffer.drain start.inbox =
      ((begin start).run actions).handled.map .frame ++ [.ended] := by
  have hall : _ = start.buffer.drain start.inbox := deliveries_run (begin start) actions
  rw [← hall]
  unfold taken toCome
  rw [h]

/-- Those that are handled are all of them when the stream has failed. -/
theorem drain_of_readFailed {start : Session σ} {actions : List Action} {fault : TransportFault}
    (h : ((begin start).run actions).phase = .done (.readFailed fault)) :
    start.buffer.drain start.inbox =
      ((begin start).run actions).handled.map .frame ++ [.failed fault] := by
  have hall : _ = start.buffer.drain start.inbox := deliveries_run (begin start) actions
  rw [← hall]
  unfold taken toCome
  rw [h]

/-- The exchange with each frame that is answered. -/
theorem exchange_of_handled {frames : List Frame} {bank : σ} {i : Nat} {frame : Frame}
    (h : frames[i]? = some frame) :
    ∃ response?, (Frame.exchangeAll frames bank).1[i]? = some ⟨frame, response?⟩ ∧
      (response? = none ↔ frame = .line []) ∧
      ∀ outage, frame.outage? (Frame.exchangeAll (frames.take i) bank).2 = some outage →
        ∃ response, response? = some response ∧ response.line = outage.line := by
  refine ⟨(frame.reply (Frame.exchangeAll (frames.take i) bank).2).1, ?_, Frame.reply_eq_none_iff,
    ?_⟩
  · rw [Frame.getElem?_exchangeAll, h]
    rfl
  · intro outage houtage
    exact Frame.reply_of_outage houtage

/-- A worker that has not ended can be brought to an end, whatever the bank has done so far. -/
theorem exists_run_result {w : Worker σ} (hwilling : w.session.outbox.Willing) :
    ∃ more, (w.run more).result?.isSome := by
  have hselecting {w : Worker σ} {waiting : Bool} (h : w.phase = .selecting waiting) :
      ∃ more, (w.run more).result?.isSome := by
    obtain ⟨more, exit, hdone, -⟩ := exists_run_serve h
    exact ⟨more, Option.isSome_iff_exists.2 ⟨_, result?_eq_some_iff.2 ⟨exit, hdone, rfl⟩⟩⟩
  have hwriting {w : Worker σ} {response : Response} (hwilling : w.session.outbox.Willing)
      (h : w.phase = .writing response) : ∃ more, (w.run more).result?.isSome := by
    have hnever := (hwilling.send response.bytes).1
    rcases hsend : w.session.outbox.send response.bytes with ⟨_ | fault, outbox⟩
    · have hphase : (w.step .write).phase = .selecting false := by
        rw [step_write h, write, hsend]
      obtain ⟨more, hmore⟩ := hselecting hphase
      exact ⟨.write :: more, hmore⟩
    · rw [hsend] at hnever
      cases hnever
  cases hphase : w.phase with
  | selecting waiting => exact hselecting hphase
  | writing response => exact hwriting hwilling hphase
  | answering frame =>
    -- the bank gives the worker back, and either there is a response to write or there is none
    have hstill : (w.step .answer).session.outbox.Willing := (w.move_step .answer).willing hwilling
    rcases hreply : frame.reply w.session.bank with ⟨_ | response, bank⟩
    · have hnext : (w.step .answer).phase = .selecting false := by
        rw [step_answer hphase, answer, hreply]
      obtain ⟨more, hmore⟩ := hselecting hnext
      exact ⟨.answer :: more, hmore⟩
    · have hnext : (w.step .answer).phase = .writing response := by
        rw [step_answer hphase, answer, hreply]
      obtain ⟨more, hmore⟩ := hwriting hstill hnext
      exact ⟨.answer :: more, hmore⟩
  | done exit =>
    exact ⟨[], Option.isSome_iff_exists.2 ⟨_, result?_eq_some_iff.2 ⟨exit, hphase, rfl⟩⟩⟩

/-- Nothing but the stream and the signal ends a session. Take any bank, which may answer, refuse or
crash at every call, and any course of events for a worker that serves a new connection to it, cut
in either way, on a stream that takes whatever is written.

* The worker reports that the peer has closed the stream if and only if it went for the next frame
  when a read met the end of the stream and no frame was left before it.
* It reports a shutdown only if it has heeded the signal after it was given, and a failure only if
  this failure is what it has read last. There is always a way to go on until it reports something.
* It handles the frames that the buffer gives, in order, and all of them unless it is shut down.
* Of the exchanges with these frames all are written but possibly the last, and that one too when
  the worker has ended. What is written is one line for each response.
* There is a response to every frame but an empty line. Where the bank, as the frames before have
  left it, fails at the request of the frame, the line of the response shows how. -/
theorem ended_by_stream_or_signal {start : Session σ} (hfresh : start.Fresh)
    (hwilling : start.outbox.Willing) (actions : List Action) {w : Worker σ}
    (hrun : (begin start).run actions = w) {exchanges : List Exchange}
    (hexchanges : (Frame.exchangeAll w.handled start.bank).1 = exchanges) :
    (w.result? = some (.ok .peerClosed) ↔
      ∃ before after, actions = before ++ .take :: after ∧ ((begin start).run before).AtEnd) ∧
    (w.result? = some (.ok .shutdown) →
      ∃ before after, actions = before ++ .heed :: after ∧ .signal ∈ before) ∧
    (∀ fault, w.result? = some (.error fault) →
      ∃ read, start.inbox.arrivals = read ++ .failure fault :: w.session.inbox.arrivals) ∧
    (∃ more, (w.run more).result?.isSome) ∧
    w.handled.map .frame <+: start.buffer.drain start.inbox ∧
    (w.result? = some (.ok .peerClosed) →
      start.buffer.drain start.inbox = w.handled.map .frame ++ [.ended]) ∧
    (∀ fault, w.result? = some (.error fault) →
      start.buffer.drain start.inbox = w.handled.map .frame ++ [.failed fault]) ∧
    (∃ written unwritten, exchanges = written ++ unwritten ∧ unwritten.length ≤ 1 ∧
      (w.result?.isSome → unwritten = []) ∧
      linePieces w.session.outbox.delivered = (Exchange.responses written).map Response.bytes ∧
      w.session.answered = (Exchange.responses written).length) ∧
    ∀ (i : Nat) (frame : Frame), w.handled[i]? = some frame →
      ∃ response? : Option Response, exchanges[i]? = some ⟨frame, response?⟩ ∧
        (response? = none ↔ frame = .line []) ∧
        ∀ outage, frame.outage? (Frame.exchangeAll (w.handled.take i) start.bank).2 = some outage →
          ∃ response, response? = some response ∧ response.line = outage.line := by
  subst hrun hexchanges
  refine ⟨reports_peerClosed_iff start actions, heeded_of_shutdown, ?_,
    exists_run_result (willing_run hwilling actions), handled_prefix start actions, ?_, ?_,
    written_run hfresh hwilling actions rfl, fun i frame => exchange_of_handled⟩
  · intro fault hresult
    exact arrivals_of_readFailed (readFailed_of_failure hwilling hresult)
  · intro hresult
    obtain ⟨exit, hphase, hexit⟩ := result?_eq_some_iff.1 hresult
    cases exit with
    | peerClosed => exact drain_of_peerClosed hphase
    | shutdown => cases hexit
    | readFailed => cases hexit
    | writeFailed => cases hexit
  · intro fault hresult
    exact drain_of_readFailed (readFailed_of_failure hwilling hresult)

/-- A bank that fails in one given way after the other, and then crashes at every call. -/
structure Trouble where
  outages : List Outage
deriving DecidableEq, Repr

/-- How the next call fails, and the bank after it. -/
def Trouble.call {α : Type} (t : Trouble) : Outcome α × Trouble :=
  ((t.outages.headD .crash).outcome, ⟨t.outages.tail⟩)

instance : Bank Trouble where
  balance _ t := t.call
  transfer _ t := t.call

/-- Two calls that fail, with an empty line between them, and a line that the end of the stream
ends. -/
def troubled : Session Trouble where
  bank := ⟨[.refusal (.invalidAmount "abc\n" "disk\r\nfull")]⟩
  buffer := .create .byLine 64
  inbox := {
    arrivals := [.bytes (Text.Utf8.encode "BALANCE 1\n\nTRANSFER 1 2 3\nPI".toList),
      .bytes (Text.Utf8.encode "NG".toList)] }
  outbox := Session.slowStream

/-- The signal comes, but the worker goes for the next frame every time, once after it has
waited. -/
def unheeded : List Action :=
  [.take, .answer, .write, .signal, .take, .answer, .take, .answer, .write, .poll 1, .take, .answer,
    .write, .take]

theorem troubled_ended_by_stream :
    let w := (begin troubled).run unheeded
    troubled.Fresh ∧ troubled.outbox.Willing ∧ w.result? = some (.ok .peerClosed) ∧
    w.session.outbox.delivered =
      Text.Utf8.encode
        "ERROR Invalid amount abc : disk  full\nERROR Internal error\nPONG\n".toList ∧
    (∃ before after, unheeded = before ++ .take :: after ∧ ((begin troubled).run before).AtEnd) ∧
    troubled.buffer.drain troubled.inbox = w.handled.map .frame ++ [.ended] ∧
    w.handled[2]? = some (.line "TRANSFER 1 2 3".toList) ∧
    ∃ response? : Option Response,
      (Frame.exchangeAll w.handled troubled.bank).1[2]? =
        some ⟨.line "TRANSFER 1 2 3".toList, response?⟩ ∧
      ∃ response, response? = some response ∧ response.line = Outage.crash.line := by
  intro w
  have hfresh : troubled.Fresh := ⟨rfl, rfl, rfl, rfl⟩
  have hwilling : troubled.outbox.Willing := ⟨rfl, by decide, by decide⟩
  have hresult : w.result? = some (.ok .peerClosed) := by decide +kernel
  have hdelivered : w.session.outbox.delivered =
      Text.Utf8.encode
        "ERROR Invalid amount abc : disk  full\nERROR Internal error\nPONG\n".toList := by
    decide +kernel
  have hthird : w.handled[2]? = some (.line "TRANSFER 1 2 3".toList) := by decide +kernel
  have hcrash : (Frame.line "TRANSFER 1 2 3".toList).outage?
      (Frame.exchangeAll (w.handled.take 2) troubled.bank).2 = some .crash := by
    decide +kernel
  obtain ⟨hend, -, -, -, -, hdrain, -, -, hlines⟩ :=
    ended_by_stream_or_signal hfresh hwilling unheeded (w := w) rfl rfl
  obtain ⟨response?, hexchange, -, hline⟩ := hlines 2 _ hthird
  exact ⟨hfresh, hwilling, hresult, hdelivered, hend.1 hresult, hdrain hresult, hthird, response?,
    hexchange, hline _ hcrash⟩

end Worker

end TransferDesk
