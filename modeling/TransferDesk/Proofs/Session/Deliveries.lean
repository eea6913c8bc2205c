import TransferDesk.Proofs.Decimal.Value
import TransferDesk.Proofs.Session.Exchanges
import TransferDesk.Proofs.Session.Moves
/-!
# What a worker has delivered

The bytes that a worker has delivered are those of the responses it has written, and possibly the
beginning of one more.

* `Outbox.send_splits`: of the bytes that are sent a part is delivered, and all of them if the
  stream does not fail.
* `Worker.Delivering` splits the exchanges so far into those whose responses are written and at most
  one more, depending on the phase (`Worker.Leaves`). Every move keeps it up
  (`Worker.Delivering.move`).
* `Worker.effects_answered`: on a ledger every new entry of the journal belongs to one `OK`, and
  only the last response can be one that was not delivered whole, wherever reading or writing fails.
-/

namespace TransferDesk

/-! ## Writing a response -/

namespace Outbox

theorem delivered_of_write {o after : Outbox} {bytes : List UInt8} {taken : Nat}
    (h : o.write bytes = (.ok taken, after)) :
    after.delivered = o.delivered ++ bytes.take taken := by
  unfold write at h
  split at h
  · simp at h
  · simp only [Prod.mk.injEq, Except.ok.injEq] at h
    obtain ⟨rfl, rfl⟩ := h
    rfl

theorem eq_of_write_error {o after : Outbox} {bytes : List UInt8} {fault : TransportFault}
    (h : o.write bytes = (.error fault, after)) : after = o := by
  unfold write at h
  split at h
  · exact (Prod.mk.inj h).2.symm
  · simp at h

/-- A part of the bytes is delivered. Nothing is left of them unless the stream fails. -/
theorem send_splits (o : Outbox) (bytes : List UInt8) :
    ∃ part rest, bytes = part ++ rest ∧ (o.send bytes).2.delivered = o.delivered ++ part ∧
      ((o.send bytes).1 = none ↔ rest = []) := by
  fun_induction send o bytes with
  | case1 o => exact ⟨[], [], rfl, (List.append_nil _).symm, by simp⟩
  | case2 o bytes hne fault after hwrite =>
    obtain rfl := eq_of_write_error hwrite
    exact ⟨[], bytes, rfl, (List.append_nil _).symm, by simp [hne]⟩
  | case3 o bytes hne after hwrite =>
    exact ⟨[], bytes, rfl, delivered_of_write hwrite, by simp [hne]⟩
  | case4 o bytes hne taken after hwrite ih =>
    -- what this write takes stands in front of what the others take
    obtain ⟨part, rest, hbytes, hdelivered, hnone⟩ := ih
    refine ⟨bytes.take (taken + 1) ++ part, rest, ?_, ?_, hnone⟩
    · rw [List.append_assoc, ← hbytes, List.take_append_drop]
    · rw [hdelivered, delivered_of_write hwrite, List.append_assoc]

end Outbox

/-! ## Written responses -/

/-- A session on a connection that has just been made. -/
structure Session.Fresh {σ : Type} (s : Session σ) : Prop where
  pending : s.buffer.pending = []
  discarding : s.buffer.discarding = false
  delivered : s.outbox.delivered = []
  answered : s.answered = 0

namespace Worker

variable {σ : Type} [Bank σ]

/-- The exchanges that a worker leaves unwritten in a phase, and the part of their bytes that has
been delivered all the same. -/
inductive Leaves : Phase → List Exchange → List UInt8 → Prop
  | selecting (waiting : Bool) : Leaves (.selecting waiting) [] []
  | answering (frame : Frame) : Leaves (.answering frame) [] []
  | writing (frame : Frame) (response : Response) :
    Leaves (.writing response) [⟨frame, some response⟩] []
  | writeFailed (fault : TransportFault) (frame : Frame) {response : Response}
    {part rest : List UInt8} (hbytes : response.bytes = part ++ rest) (hrest : rest ≠ []) :
    Leaves (.done (.writeFailed fault)) [⟨frame, some response⟩] part
  | done {exit : Exit} (hexit : ∀ fault, exit ≠ .writeFailed fault) : Leaves (.done exit) [] []

theorem Leaves.of_writing {phase : Phase} {response : Response} {unwritten : List Exchange}
    {part : List UInt8} (h : Leaves phase unwritten part) (hphase : phase = .writing response) :
    ∃ frame, unwritten = [⟨frame, some response⟩] ∧ part = [] := by
  subst hphase
  cases h with
  | writing frame => exact ⟨frame, rfl, rfl⟩

/-- The exchanges so far are written, but for those that the phase leaves. -/
structure Delivering (start : Session σ) (w : Worker σ) (written unwritten : List Exchange)
    (part : List UInt8) : Prop where
  exchanges : Frame.exchangeAll w.handled start.bank = (written ++ unwritten, w.session.bank)
  leaves : Leaves w.phase unwritten part
  delivered : w.session.outbox.delivered = Exchange.wire written ++ part
  answered : w.session.answered = (Exchange.responses written).length

theorem Delivering.begin {start : Session σ} (h : start.Fresh) :
    Delivering start (begin start) [] [] [] where
  exchanges := rfl
  leaves := .selecting false
  delivered := h.delivered
  answered := h.answered

/-- What a worker does between two frames leaves no response unwritten. -/
theorem Delivering.of_selecting {start : Session σ} {w after : Worker σ} {waiting : Bool}
    {written unwritten : List Exchange} {part : List UInt8}
    (h : Delivering start w written unwritten part) (hphase : w.phase = .selecting waiting)
    (hhandled : after.handled = w.handled) (hbank : after.session.bank = w.session.bank)
    (hdelivered : after.session.outbox.delivered = w.session.outbox.delivered)
    (hanswered : after.session.answered = w.session.answered) (hleaves : Leaves after.phase [] []) :
    Delivering start after written [] [] := by
  have hnothing := h.leaves
  rw [hphase] at hnothing
  cases hnothing
  exact ⟨by rw [hhandled, hbank, h.exchanges], hleaves, hdelivered.trans h.delivered,
    hanswered.trans h.answered⟩

/-- The exchanges after one more. -/
theorem Delivering.exchanges_concat {start : Session σ} {w : Worker σ} {frame : Frame}
    {written unwritten : List Exchange} {part : List UInt8} {response? : Option Response} {bank : σ}
    (h : Delivering start w written unwritten part) (hphase : w.phase = .answering frame)
    (hreply : frame.reply w.session.bank = (response?, bank)) :
    unwritten = [] ∧ part = [] ∧ Frame.exchangeAll (w.handled ++ [frame]) start.bank =
      (written ++ [⟨frame, response?⟩], bank) := by
  have hnothing := h.leaves
  rw [hphase] at hnothing
  cases hnothing
  refine ⟨rfl, rfl, ?_⟩
  rw [Frame.exchangeAll_concat, h.exchanges, hreply, List.append_nil]

/-- Every move keeps the account of what is written. -/
theorem Delivering.move {start : Session σ} {w after : Worker σ} (hmove : Move w after)
    {written unwritten : List Exchange} {part : List UInt8}
    (h : Delivering start w written unwritten part) :
    ∃ written unwritten part, Delivering start after written unwritten part := by
  cases hmove with
  | stay => exact ⟨_, _, _, h⟩
  | signal => exact ⟨_, _, _, h.exchanges, h.leaves, h.delivered, h.answered⟩
  -- between two frames everything is written, and none of these moves writes anything
  | heed hphase => exact ⟨_, _, _, h.of_selecting hphase rfl rfl rfl rfl (.done (by simp))⟩
  | poll hphase => exact ⟨_, _, _, h.of_selecting hphase rfl rfl rfl rfl (.selecting true)⟩
  | take hphase => exact ⟨_, _, _, h.of_selecting hphase rfl rfl rfl rfl (.answering _)⟩
  | peerClosed hphase => exact ⟨_, _, _, h.of_selecting hphase rfl rfl rfl rfl (.done (by simp))⟩
  | readFailed hphase => exact ⟨_, _, _, h.of_selecting hphase rfl rfl rfl rfl (.done (by simp))⟩
  | passOver hphase hreply =>
    rename_i frame bank
    obtain ⟨rfl, rfl, hexchanges⟩ := h.exchanges_concat hphase hreply
    -- an exchange without a response puts nothing on the wire
    refine ⟨written ++ [⟨frame, none⟩], [], [], ?_, .selecting false, ?_, ?_⟩
    · rw [hexchanges, List.append_nil]
    · rw [Exchange.wire_append, Exchange.wire_of_none, List.append_nil]
      exact h.delivered
    · rw [h.answered, Exchange.responses_append, Exchange.responses_of_none, List.append_nil]
  | answer hphase hreply =>
    rename_i frame response bank
    obtain ⟨rfl, rfl, hexchanges⟩ := h.exchanges_concat hphase hreply
    exact ⟨written, [⟨frame, some response⟩], [], hexchanges, .writing frame response,
      h.delivered, h.answered⟩
  | write hphase hsend =>
    rename_i response outbox
    obtain ⟨frame, rfl, rfl⟩ := h.leaves.of_writing hphase
    obtain ⟨part, rest, hbytes, hdelivered, hnone⟩ := w.session.outbox.send_splits response.bytes
    rw [hsend, h.delivered, List.append_nil] at hdelivered
    rw [hsend] at hnone
    -- the stream has not failed, so nothing is left of the response
    obtain rfl := hnone.1 rfl
    rw [List.append_nil] at hbytes
    refine ⟨written ++ [⟨frame, some response⟩], [], [], ?_, .selecting false, ?_, ?_⟩
    · rw [List.append_nil]
      exact h.exchanges
    · rw [Exchange.wire_append, Exchange.wire_of_some, hbytes, List.append_nil]
      exact hdelivered
    · rw [Exchange.responses_append, Exchange.responses_of_some, List.length_append, ← h.answered]
      rfl
  | writeFailed hphase hsend =>
    rename_i response fault outbox
    obtain ⟨frame, rfl, rfl⟩ := h.leaves.of_writing hphase
    obtain ⟨part, rest, hbytes, hdelivered, hnone⟩ := w.session.outbox.send_splits response.bytes
    rw [hsend, h.delivered, List.append_nil] at hdelivered
    rw [hsend] at hnone
    have hrest : rest ≠ [] := by
      intro hnil
      exact absurd (hnone.2 hnil) (by simp)
    exact ⟨written, _, part, h.exchanges, .writeFailed fault frame hbytes hrest, hdelivered,
      h.answered⟩

/-- What has been delivered at any time. -/
theorem Delivering.run {start : Session σ} (h : start.Fresh) (actions : List Action) :
    ∃ written unwritten part,
      Delivering start ((Worker.begin start).run actions) written unwritten part := by
  refine run_keeps (P := fun w => ∃ written unwritten part,
    Delivering start w written unwritten part) ?_ ⟨[], [], [], .begin h⟩ actions
  rintro w after hmove ⟨written, unwritten, part, hkept⟩
  exact hkept.move hmove

/-! ## Effects and answers -/

theorem Leaves.length_le {phase : Phase} {unwritten : List Exchange} {part : List UInt8}
    (h : Leaves phase unwritten part) : unwritten.length ≤ 1 := by
  cases h <;> simp

theorem Leaves.part_prefix {phase : Phase} {unwritten : List Exchange} {part : List UInt8}
    (h : Leaves phase unwritten part) : part <+: Exchange.wire unwritten := by
  cases h with
  | writeFailed fault frame hbytes =>
    rw [Exchange.wire_of_some, hbytes]
    exact List.prefix_append _ _
  | _ => exact List.nil_prefix

/-- Everything is written when the session is closed, and also when reading from it has failed. -/
theorem Leaves.of_done {exit : Exit} {unwritten : List Exchange} {part : List UInt8}
    (h : Leaves (.done exit) unwritten part)
    (hexit : (∃ reason, exit.result = .ok reason) ∨ ∃ fault, exit = .readFailed fault) :
    unwritten = [] ∧ part = [] := by
  cases h with
  | writeFailed => simp [Exit.result] at hexit
  | done => exact ⟨rfl, rfl⟩

/-- The responses that are counted are those of the exchanges that are written. -/
theorem take_responses {written : List Exchange} (unwritten : List Exchange) {answered : Nat}
    (h : answered = (Exchange.responses written).length) :
    (Exchange.responses (written ++ unwritten)).take answered = Exchange.responses written := by
  rw [Exchange.responses_append, h, List.take_left]

/-- Effects and answers correspond, wherever a connection breaks. Take any course of events for a
worker that serves a new connection to a ledger, and the exchanges of the frames that it has
handled, in order.

* The bytes delivered are the first of those that the exchanges put on the wire.
* If the session was closed, or if reading has failed, they are all of them, and as many responses
  are counted as there are.
* If writing has failed, exactly one response is not delivered whole. It is the last, and no frame
  is read or answered after it.
* The journal has grown by one entry for each line that reads `OK`, in order, for the transfer that
  the line answers. So all but at most one of the new entries have an `OK` that was delivered whole,
  and there is no `OK` without an entry. -/
theorem effects_answered {start : Session Ledger} (hfresh : start.Fresh) (actions : List Action)
    {w : Worker Ledger} (hrun : (Worker.begin start).run actions = w) {exchanges : List Exchange}
    (hexchanges : (Frame.exchangeAll w.handled start.bank).1 = exchanges) :
    w.session.outbox.delivered <+: Exchange.wire exchanges ∧
    (∀ exit, w.phase = .done exit →
      ((∃ reason, exit.result = .ok reason) ∨ ∃ fault, exit = .readFailed fault) →
      w.session.outbox.delivered = Exchange.wire exchanges ∧
      w.session.answered = (Exchange.responses exchanges).length) ∧
    (∀ fault, w.phase = .done (.writeFailed fault) →
      (∃ written frame response part rest, exchanges = written ++ [⟨frame, some response⟩] ∧
        w.session.outbox.delivered = Exchange.wire written ++ part ∧
        response.bytes = part ++ rest ∧ rest ≠ [] ∧
        w.session.answered = (Exchange.responses written).length) ∧
      ∀ more, (w.run more).session = w.session ∧ (w.run more).handled = w.handled) ∧
    ∃ booked, w.session.bank.journal = start.bank.journal ++ booked ∧
      List.Forall₂ Exchange.BookedAs (Exchange.confirmed exchanges) booked ∧
      booked.length = Exchange.okLines (Exchange.responses exchanges) ∧
      ((Exchange.responses exchanges).take w.session.answered).flatMap Response.bytes <+:
        w.session.outbox.delivered ∧
      booked.length ≤
        Exchange.okLines ((Exchange.responses exchanges).take w.session.answered) + 1 := by
  obtain ⟨written, unwritten, part, hdelivering⟩ := Delivering.run hfresh actions
  rw [hrun] at hdelivering
  obtain ⟨hall, hleaves, hdelivered, hanswered⟩ := hdelivering
  obtain ⟨booked, hjournal, hbooked⟩ := booked_exchangeAll w.handled start.bank
  rw [hall] at hexchanges hjournal hbooked
  have hlength : booked.length = Exchange.okLines (Exchange.responses exchanges) := by
    rw [← Exchange.length_confirmed, ← hexchanges, hbooked.length_eq]
  subst hexchanges
  refine ⟨?_, ?_, ?_, booked, hjournal, hbooked, hlength, ?_, ?_⟩
  · -- behind the responses that are written comes the beginning of the next one at most
    rw [hdelivered, Exchange.wire_append]
    exact (List.prefix_append_right_inj _).2 hleaves.part_prefix
  · intro exit hphase hexit
    rw [hphase] at hleaves
    obtain ⟨rfl, rfl⟩ := hleaves.of_done hexit
    rw [List.append_nil]
    exact ⟨hdelivered.trans (List.append_nil _), hanswered⟩
  · intro fault hphase
    refine ⟨?_, fun more => ?_⟩
    · rw [hphase] at hleaves
      cases hleaves with
      | writeFailed fault frame hbytes hrest =>
        exact ⟨_, _, _, _, _, rfl, hdelivered, hbytes, hrest, hanswered⟩
      | done hexit => exact absurd rfl (hexit fault)
    · obtain ⟨hsession, hhandled, -⟩ := run_of_done hphase more
      exact ⟨hsession, hhandled⟩
  · rw [take_responses unwritten hanswered, hdelivered]
    exact List.prefix_append _ _
  · -- an entry whose `OK` is not written yet belongs to the exchange that is left
    have hone : Exchange.okLines (Exchange.responses unwritten) ≤ 1 :=
      calc
        _ ≤ (Exchange.responses unwritten).length := Exchange.okLines_le _
        _ ≤ unwritten.length := List.length_filterMap_le _ _
        _ ≤ 1 := hleaves.length_le
    rw [hlength, take_responses unwritten hanswered, Exchange.responses_append,
      Exchange.okLines_append]
    exact Nat.add_le_add_left hone _

/-- A connection that takes bytes in portions and breaks at the fifth write. -/
def brokenPipe : Session Ledger where
  bank := {
    accounts := [
      { id := 1, balance := Decimal.ofParts 1000 2, currency := "USD" },
      { id := 2, balance := Decimal.ofParts 0 2, currency := "USD" }]
    ascending := by decide }
  buffer := .create .byLine 64
  inbox := {
    arrivals := [
      .bytes (Text.Utf8.encode "TRANSFER 1 2 1\nPI".toList),
      .bytes (Text.Utf8.encode "NG\nTRANSFER 1 2 2\nPING\n".toList)] }
  outbox := { budget := some 4, portions := [3, 2, 3, 1] }

/-- The signal comes while the first line is answered, but the worker goes for the next one. -/
def threeLines : List Action :=
  [.take, .signal, .answer, .write, .take, .answer, .write, .take, .answer, .write, .take]

theorem brokenPipe_effects_answered :
    let w := (begin brokenPipe).run threeLines
    brokenPipe.Fresh ∧ w.phase = .done (.writeFailed .brokenPipe) ∧
    w.session.outbox.delivered = Text.Utf8.encode "OK\nPONG\nO".toList ∧
    w.session.bank.journal.map (·.order.amount) =
      [Decimal.ofParts 100 2, Decimal.ofParts 200 2] ∧
    (∃ written frame response part rest,
      (Frame.exchangeAll w.handled brokenPipe.bank).1 = written ++ [⟨frame, some response⟩] ∧
      w.session.outbox.delivered = Exchange.wire written ++ part ∧
      response.bytes = part ++ rest ∧ rest ≠ [] ∧
      w.session.answered = (Exchange.responses written).length) ∧
    ∃ booked, w.session.bank.journal = [] ++ booked ∧
      booked.length ≤ Exchange.okLines ((Exchange.responses
        (Frame.exchangeAll w.handled brokenPipe.bank).1).take w.session.answered) + 1 := by
  intro w
  have hfresh : brokenPipe.Fresh := ⟨rfl, rfl, rfl, rfl⟩
  have hphase : w.phase = .done (.writeFailed .brokenPipe) := by decide +kernel
  have hdelivered : w.session.outbox.delivered = Text.Utf8.encode "OK\nPONG\nO".toList := by
    decide +kernel
  have hamounts : w.session.bank.journal.map (·.order.amount) =
      [Decimal.ofParts 100 2, Decimal.ofParts 200 2] := by
    decide +kernel
  obtain ⟨-, -, hfailed, booked, hjournal, -, -, -, hless⟩ :=
    effects_answered hfresh threeLines (w := w) rfl rfl
  exact ⟨hfresh, hphase, hdelivered, hamounts, (hfailed _ hphase).1, booked, hjournal, hless⟩

end Worker

end TransferDesk
