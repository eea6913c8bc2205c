import TransferDesk.Session.Worker
/-!
# All that a worker can do

`Worker.Move` lists what one action can come to, each time with the phase in which that is possible
and with what the buffer, the bank or the stream had to say about it. `Worker.move_step` says that
the list is complete, so what every move keeps is kept along every run (`Worker.run_keeps`).
-/

namespace TransferDesk

namespace Worker

variable {σ : Type} [Bank σ]

/-- What one action can come to. -/
inductive Move (w : Worker σ) : Worker σ → Prop
  | stay : Move w w
  | signal : Move w { w with signalled := true }
  | heed {waiting : Bool} (hphase : w.phase = .selecting waiting) :
    Move w (w.finish w.session.close (.shutdown waiting))
  | poll {waiting : Bool} {read rest : List Arrival} {buffer : FrameBuffer}
    (hphase : w.phase = .selecting waiting) (harrivals : w.session.inbox.arrivals = read ++ rest)
    (hnext : w.session.buffer.next ⟨read, .silent⟩ = (.waiting, buffer, ⟨[], .silent⟩)) :
    Move w { w with
      session := { w.session with buffer, inbox := ⟨rest, w.session.inbox.ending⟩ }
      phase := .selecting true }
  | take {waiting : Bool} {frame : Frame} {buffer : FrameBuffer} {inbox : Inbox}
    (hphase : w.phase = .selecting waiting)
    (hnext : w.session.buffer.next w.session.inbox = (.frame frame, buffer, inbox)) :
    Move w { w with session := { w.session with buffer, inbox }, phase := .answering frame }
  | peerClosed {waiting : Bool} {buffer : FrameBuffer} {inbox : Inbox}
    (hphase : w.phase = .selecting waiting)
    (hnext : w.session.buffer.next w.session.inbox = (.ended, buffer, inbox)) :
    Move w (w.finish ({ w.session with buffer, inbox } : Session σ).close .peerClosed)
  | readFailed {waiting : Bool} {fault : TransportFault} {buffer : FrameBuffer} {inbox : Inbox}
    (hphase : w.phase = .selecting waiting)
    (hnext : w.session.buffer.next w.session.inbox = (.failed fault, buffer, inbox)) :
    Move w (w.finish { w.session with buffer, inbox } (.readFailed fault))
  | passOver {frame : Frame} {bank : σ} (hphase : w.phase = .answering frame)
    (hreply : frame.reply w.session.bank = (none, bank)) :
    Move w { w with
      session := { w.session with bank }
      phase := .selecting false
      handled := w.handled ++ [frame] }
  | answer {frame : Frame} {response : Response} {bank : σ} (hphase : w.phase = .answering frame)
    (hreply : frame.reply w.session.bank = (some response, bank)) :
    Move w { w with
      session := { w.session with bank }
      phase := .writing response
      handled := w.handled ++ [frame] }
  | write {response : Response} {outbox : Outbox} (hphase : w.phase = .writing response)
    (hsend : w.session.outbox.send response.bytes = (none, outbox)) :
    Move w { w with
      session := { w.session with outbox, answered := w.session.answered + 1 }
      phase := .selecting false }
  | writeFailed {response : Response} {fault : TransportFault} {outbox : Outbox}
    (hphase : w.phase = .writing response)
    (hsend : w.session.outbox.send response.bytes = (some fault, outbox)) :
    Move w (w.finish { w.session with outbox } (.writeFailed fault))

theorem move_heed {w : Worker σ} {waiting : Bool} (h : w.phase = .selecting waiting) :
    Move w (w.heed waiting) := by
  unfold heed
  split
  · exact .heed h
  · exact .stay

theorem move_poll {w : Worker σ} {waiting : Bool} (h : w.phase = .selecting waiting)
    (reads : Nat) : Move w (w.poll reads) := by
  unfold poll
  split
  · rename_i buffer inbox hnext
    obtain ⟨-, rfl⟩ := FrameBuffer.next_eq_waiting hnext
    exact .poll h (List.take_append_drop reads _).symm hnext
  · exact .stay

theorem move_take {w : Worker σ} {waiting : Bool} (h : w.phase = .selecting waiting) :
    Move w w.take := by
  unfold take
  split
  · exact .take h ‹_›
  · exact .peerClosed h ‹_›
  · exact .readFailed h ‹_›
  · exact .stay

theorem move_answer {w : Worker σ} {frame : Frame} (h : w.phase = .answering frame) :
    Move w (w.answer frame) := by
  unfold answer
  rcases hreply : frame.reply w.session.bank with ⟨_ | response, bank⟩
  · exact .passOver h hreply
  · exact .answer h hreply

theorem move_write {w : Worker σ} {response : Response} (h : w.phase = .writing response) :
    Move w (w.write response) := by
  unfold write
  split
  · exact .write h ‹_›
  · exact .writeFailed h ‹_›

/-- Whatever is tried, it comes to one of the moves. -/
theorem move_step (w : Worker σ) (action : Action) : Move w (w.step action) := by
  unfold step
  split
  · exact .signal
  · exact move_heed ‹_›
  · exact move_poll ‹_› _
  · exact move_take ‹_›
  · exact move_answer ‹_›
  · exact move_write ‹_›
  · exact .stay

/-- What every move keeps is kept along every run. -/
theorem run_keeps {P : Worker σ → Prop}
    (hmove : ∀ {w after : Worker σ}, Move w after → P w → P after) {w : Worker σ} (h : P w)
    (actions : List Action) : P (w.run actions) := by
  induction actions generalizing w with
  | nil => exact h
  | cons action actions ih => exact ih (hmove (w.move_step action) h)

/-- No move changes anything once the worker has ended. -/
theorem Move.of_done {w after : Worker σ} {exit : Exit} (hmove : Move w after)
    (h : w.phase = .done exit) :
    after.session = w.session ∧ after.handled = w.handled ∧ after.phase = .done exit := by
  cases hmove with
  | stay => exact ⟨rfl, rfl, h⟩
  | signal => exact ⟨rfl, rfl, h⟩
  -- all other moves begin in another phase
  | _ hphase => simp [h] at hphase

/-- A worker that has ended does nothing more. -/
theorem run_of_done {w : Worker σ} {exit : Exit} (h : w.phase = .done exit)
    (actions : List Action) :
    (w.run actions).session = w.session ∧ (w.run actions).handled = w.handled ∧
      (w.run actions).phase = .done exit := by
  refine run_keeps
    (P := fun after => after.session = w.session ∧ after.handled = w.handled ∧
      after.phase = .done exit) ?_ ⟨rfl, rfl, h⟩ actions
  rintro v after hmove ⟨hsession, hhandled, hdone⟩
  obtain ⟨hsame, hmore, hphase⟩ := hmove.of_done hdone
  exact ⟨hsame.trans hsession, hmore.trans hhandled, hphase⟩

end Worker

end TransferDesk
