import TransferDesk.Proofs.Framing.Complete
import TransferDesk.Proofs.Session.Deliveries
/-!
# What is answered before a worker shuts down

A worker heeds the signal to shut down between two frames only, so a request that it has taken is
answered. What it has read can be more than what it has taken: one read may bring several lines, and
those that are still in the buffer when the signal is heeded are dropped.

* `Worker.Consuming` relates the frames that a worker has taken to what it has read, and says that
  nothing complete is in the buffer while it waits. Every move keeps this up, unless the session
  ends for another reason (`Worker.Consuming.move`).
* `Worker.answered_unless_buffered`: the complete frames of what was read have been answered, in
  order, but for those that are left in the buffer. There are none if the worker was waiting for
  input, or if every read is a frame of its own.
-/

namespace TransferDesk

namespace Worker

variable {σ : Type}

/-- The frames that a worker has taken. The last of them may not be answered yet. -/
def taken (w : Worker σ) : List Frame :=
  match w.phase with
  | .answering frame => w.handled ++ [frame]
  | _ => w.handled

/-- What a worker that began with `start` has read and taken. -/
structure Consuming (start : Session σ) (w : Worker σ) (read : List Arrival) : Prop where
  arrivals : start.inbox.arrivals = read ++ w.session.inbox.arrivals
  alike : start.buffer.Alike w.session.buffer
  frames : FrameBuffer.Taken start.buffer.size read w.session.inbox.arrivals w.taken
    w.session.buffer
  quiet : w.phase = .selecting true ∨ w.phase = .done (.shutdown true) →
    w.session.buffer.framing = .byLine → w.session.buffer.Quiet

theorem Consuming.begin {start : Session σ} (h : start.Fresh) :
    Consuming start (Worker.begin start) [] where
  arrivals := rfl
  alike := ⟨rfl, rfl⟩
  frames := .start h.pending h.discarding _
  quiet := by simp [Worker.begin]

variable [Bank σ]

/-- Every move keeps account of what is read and taken, or ends the session for another reason than
the signal. -/
theorem Consuming.move {start : Session σ} {w after : Worker σ} (hmove : Move w after)
    {read : List Arrival} (h : Consuming start w read) :
    (∃ read, Consuming start after read) ∨
      ∃ exit, after.phase = .done exit ∧ ∀ waiting, exit ≠ .shutdown waiting := by
  obtain ⟨harrivals, halike, hframes, hquiet⟩ := h
  unfold taken at hframes
  cases hmove with
  | stay => exact Or.inl ⟨read, harrivals, halike, hframes, hquiet⟩
  | signal => exact Or.inl ⟨read, harrivals, halike, hframes, hquiet⟩
  | heed hphase =>
    rw [hphase] at hframes
    refine Or.inl ⟨read, harrivals, halike, hframes, ?_⟩
    intro hdone
    refine hquiet (Or.inl ?_)
    simpa [finish, hphase] using hdone
  | poll hphase hsplit hnext =>
    rename_i waiting bytes rest buffer
    rw [hphase, hsplit] at hframes
    -- everything that has arrived is read, and no frame comes of it
    obtain ⟨more, hmore, hsame, -, hwaiting⟩ := hframes.next hnext (by simp)
    obtain ⟨htaken, hnothing⟩ := hwaiting rfl
    rw [List.append_nil] at hmore
    subst hmore
    refine Or.inl ⟨read ++ bytes, ?_, halike.trans hsame, htaken, fun _ => hnothing⟩
    rw [harrivals, hsplit, List.append_assoc]
  | take hphase hnext =>
    rename_i waiting frame buffer inbox
    rw [hphase, ← List.append_nil w.session.inbox.arrivals] at hframes
    -- the frame is taken now, and will be handled by the next move
    obtain ⟨more, hmore, hsame, hframe, -⟩ := hframes.next hnext (fun _ => rfl)
    have htaken := hframe frame rfl
    rw [List.append_nil] at htaken
    refine Or.inl ⟨read ++ more, ?_, halike.trans hsame, htaken, by simp⟩
    rw [harrivals, hmore, List.append_assoc]
  | peerClosed hphase hnext => exact Or.inr ⟨_, rfl, by simp⟩
  | readFailed hphase hnext => exact Or.inr ⟨_, rfl, by simp⟩
  | passOver hphase hreply =>
    rw [hphase] at hframes
    exact Or.inl ⟨read, harrivals, halike, hframes, by simp⟩
  | answer hphase hreply =>
    rw [hphase] at hframes
    exact Or.inl ⟨read, harrivals, halike, hframes, by simp⟩
  | write hphase hsend =>
    rw [hphase] at hframes
    exact Or.inl ⟨read, harrivals, halike, hframes, by simp⟩
  | writeFailed hphase hsend => exact Or.inr ⟨_, rfl, by simp⟩

/-- What has been read and taken at any time, unless the session has ended for another reason. -/
theorem Consuming.run {start : Session σ} (h : start.Fresh) (actions : List Action) :
    (∃ read, Consuming start ((Worker.begin start).run actions) read) ∨
      ∃ exit, ((Worker.begin start).run actions).phase = .done exit ∧
        ∀ waiting, exit ≠ .shutdown waiting := by
  refine run_keeps (P := fun w => (∃ read, Consuming start w read) ∨
    ∃ exit, w.phase = .done exit ∧ ∀ waiting, exit ≠ .shutdown waiting) ?_
    (Or.inl ⟨[], .begin h⟩) actions
  rintro w after hmove (⟨read, hkept⟩ | ⟨exit, hdone, hother⟩)
  · exact hkept.move hmove
  · exact Or.inr ⟨exit, (hmove.of_done hdone).2.2, hother⟩

/-- What is answered of what has been read when a worker shuts down. Take any course of events for a
worker that serves a new connection, in which it heeds the signal in the end.

* The complete frames of what was read are some of those that have been exchanged, in order, and
behind them those that are left in the buffer, if any. Before the stream comes to its end, every
complete request has been answered if and only if no request is left in the buffer.
* Nothing is left in the buffer if every read is a frame, or if the worker was waiting for input.
* Each exchange has a response, unless it is of an empty line, and all responses have been delivered
and counted. -/
theorem answered_unless_buffered {start : Session σ} (hfresh : start.Fresh) (actions : List Action)
    {w : Worker σ} (hrun : (Worker.begin start).run actions = w) {exchanges : List Exchange}
    (hexchanges : (Frame.exchangeAll w.handled start.bank).1 = exchanges) {waiting : Bool}
    (hdone : w.phase = .done (.shutdown waiting)) :
    ∃ read answered, start.inbox.arrivals = read ++ w.session.inbox.arrivals ∧
      completeFrames start.buffer.framing start.buffer.size read =
        answered ++ w.session.buffer.buffered ∧
      answered.Sublist (exchanges.map Exchange.frame) ∧
      ((∀ a ∈ read, a ≠ .bytes []) →
        ((requests (completeFrames start.buffer.framing start.buffer.size read)).Sublist
            (requests (exchanges.map Exchange.frame)) ↔
          requests w.session.buffer.buffered = [])) ∧
      (start.buffer.framing = .byRead ∨ waiting = true → w.session.buffer.buffered = []) ∧
      (∀ e ∈ exchanges, e.response? = none ↔ e.frame = .line []) ∧
      w.session.outbox.delivered = Exchange.wire exchanges ∧
      w.session.answered = (Exchange.responses exchanges).length := by
  have hconsuming := Consuming.run hfresh actions
  obtain ⟨written, unwritten, part, hdelivering⟩ := Delivering.run hfresh actions
  rw [hrun] at hconsuming hdelivering
  rcases hconsuming with ⟨read, harrivals, halike, hframes, hquiet⟩ | ⟨exit, hexit, hother⟩
  · obtain ⟨hall, hleaves, hdelivered, hanswered⟩ := hdelivering
    rw [hdone] at hleaves
    obtain ⟨rfl, rfl⟩ := hleaves.of_done (Or.inl ⟨.shutdown, rfl⟩)
    -- no frame is held in this phase, so those that were taken are those that were exchanged
    have htaken : w.taken = exchanges.map Exchange.frame := by
      rw [← hexchanges, Frame.map_frame_exchangeAll, taken, hdone]
    rw [htaken] at hframes
    obtain ⟨answered, hcomplete, hsublist⟩ := hframes.complete
    have hiff := hframes.requests_iff
    rw [halike.framing] at hcomplete hiff
    refine ⟨read, answered, harrivals, hcomplete, hsublist, hiff, ?_, ?_, ?_, ?_⟩
    · intro hnothing
      apply FrameBuffer.buffered_of_not_mem
      intro hframing
      rcases hnothing with hread | rfl
      · rw [← halike.framing, hframing] at hread
        cases hread
      · exact (hquiet (Or.inr hdone) hframing).no_line
    · intro e he
      rw [← hexchanges] at he
      exact Frame.response_eq_none_of_mem he
    · rw [← hexchanges, hall, List.append_nil]
      exact hdelivered.trans (List.append_nil _)
    · rw [← hexchanges, hall, List.append_nil]
      exact hanswered
  · rw [hdone] at hexit
    exact absurd (Phase.done.inj hexit).symm (hother waiting)

/-- Two lines in one read. -/
def twoPings : Session Ledger where
  bank := Ledger.empty
  buffer := .create .byLine 64
  inbox := { arrivals := [.bytes (Text.Utf8.encode "PING\nPING\n".toList)], ending := .silent }

/-- The signal comes while the first line is answered, and is heeded with the second one in the
buffer. -/
def signalledBetween : List Action :=
  [.take, .signal, .answer, .write, .heed]

/-- Both lines have been read, and only one of them has been answered. -/
theorem twoPings_one_dropped :
    let w := (Worker.begin twoPings).run signalledBetween
    let exchanges := (Frame.exchangeAll w.handled Ledger.empty).1
    twoPings.Fresh ∧ w.phase = .done (.shutdown false) ∧ w.session.inbox.arrivals = [] ∧
      completeFrames .byLine 64 twoPings.inbox.arrivals =
        [.line "PING".toList, .line "PING".toList] ∧
      w.session.buffer.buffered = [.line "PING".toList] ∧
      exchanges.map Exchange.frame = [.line "PING".toList] ∧ w.session.answered = 1 ∧
      w.session.outbox.delivered = Text.Utf8.encode "PONG\n".toList ∧
      ¬ (requests (completeFrames .byLine 64 twoPings.inbox.arrivals)).Sublist
        (requests (exchanges.map Exchange.frame)) := by
  intro w exchanges
  have hfresh : twoPings.Fresh := ⟨rfl, rfl, rfl, rfl⟩
  have hdone : w.phase = .done (.shutdown false) := by decide +kernel
  have hread : w.session.inbox.arrivals = [] := by decide +kernel
  have hbuffered : w.session.buffer.buffered = [.line "PING".toList] := by decide +kernel
  obtain ⟨read, -, harrivals, -, -, hiff, -⟩ :=
    answered_unless_buffered hfresh signalledBetween rfl rfl hdone
  change twoPings.inbox.arrivals = read ++ w.session.inbox.arrivals at harrivals
  rw [hread, List.append_nil] at harrivals
  subst harrivals
  refine ⟨hfresh, hdone, hread, by decide +kernel, hbuffered, by decide +kernel,
    by decide +kernel, by decide +kernel, ?_⟩
  intro hall
  have hnone := (hiff (by decide)).1 hall
  change requests w.session.buffer.buffered = [] at hnone
  rw [hbuffered] at hnone
  cases hnone

/-- Two lines, an empty one and the beginning of another, in two reads. -/
def tornPings : Session Ledger where
  bank := Ledger.empty
  buffer := .create .byLine 64
  inbox := {
    arrivals := [.bytes (Text.Utf8.encode "PING\nPI".toList),
      .bytes (Text.Utf8.encode "NG\r\n\nPING".toList)]
    ending := .silent }

-- If the worker heeds the signal only when nothing more is there, every request has been answered.
-- There is no response for the empty line.
example :
    let w := (Worker.begin tornPings).run
      [.take, .signal, .answer, .write, .take, .answer, .write, .take, .answer, .poll 0, .heed]
    w.phase = .done (.shutdown true) ∧ w.session.buffer.buffered = [] ∧
      w.handled = [.line "PING".toList, .line "PING".toList, .line []] ∧
      w.session.outbox.delivered = Text.Utf8.encode "PONG\nPONG\n".toList := by
  decide +kernel

/-- One read of a line break. -/
def lineBreak : Session Ledger where
  bank := Ledger.empty
  buffer := .create .byRead 64
  inbox := { arrivals := [.bytes [carriageReturn, lineFeed]], ending := .silent }

-- A read of a line break alone is an empty line: it is handled, and there is nothing to answer.
example :
    let w := (Worker.begin lineBreak).run [.take, .answer, .poll 0, .signal, .heed]
    w.phase = .done (.shutdown true) ∧ w.handled = [.line []] ∧ w.session.answered = 0 := by
  decide +kernel

end Worker

end TransferDesk
