import TransferDesk.Proofs.Framing.Delivery
import TransferDesk.Proofs.Session.Deliveries
/-!
# Conversations

A session answers the frames that its buffer gives, each of them with the bank as the frames before
have left it, until the buffer gives something else or a response cannot be written
(`Session.run_of_drain`).

On a stream that is cut by line and closed in the end, the buffer gives the frames of all the bytes
put together (`FrameBuffer.drain_of_line`). So the whole conversation depends on nothing but those
bytes (`Session.conversation_depends_on_bytes`): it is what comes of answering their frames one
after the other (`Frame.converse`).
-/

namespace TransferDesk

/-! ## Streams that take everything -/

namespace Outbox

/-- The stream takes whatever is written, if only a few bytes at a time. -/
structure Willing (o : Outbox) : Prop where
  unlimited : o.budget = none
  portions : ∀ portion ∈ o.portions, 0 < portion
  grain : o.grain ≠ some 0

theorem Willing.appetite_pos {o : Outbox} (h : o.Willing) {bytes : List UInt8} (hne : bytes ≠ []) :
    0 < o.appetite bytes := by
  have hlength : 0 < bytes.length := List.length_pos_iff.2 hne
  unfold appetite
  cases hportions : o.portions with
  | cons portion rest =>
    have hportion : 0 < portion := h.portions portion (by rw [hportions]; exact List.mem_cons_self)
    exact Nat.lt_min.2 ⟨hportion, hlength⟩
  | nil =>
    cases hgrain : o.grain with
    | none => exact hlength
    | some grain =>
      have hsome : grain ≠ 0 := by
        rintro rfl
        exact h.grain hgrain
      exact Nat.lt_min.2 ⟨Nat.pos_of_ne_zero hsome, hlength⟩

/-- A stream that takes everything takes some bytes at every write, and then is as it was. -/
theorem Willing.write {o : Outbox} (h : o.Willing) {bytes : List UInt8} (hne : bytes ≠ []) :
    ∃ taken after, o.write bytes = (.ok (taken + 1), after) ∧ after.Willing := by
  obtain ⟨taken, htaken⟩ := Nat.exists_eq_succ_of_ne_zero (h.appetite_pos hne).ne'
  unfold Outbox.write
  rw [h.unlimited, htaken]
  refine ⟨taken, _, rfl, rfl, ?_, h.grain⟩
  intro portion hportion
  exact h.portions portion (List.mem_of_mem_tail hportion)

theorem Willing.send {o : Outbox} (h : o.Willing) (bytes : List UInt8) :
    (o.send bytes).1 = none ∧ (o.send bytes).2.Willing := by
  fun_induction Outbox.send o bytes with
  | case1 o => exact ⟨rfl, h⟩
  | case2 o bytes hne fault after hwrite =>
    obtain ⟨taken, rest, hsome, -⟩ := h.write hne
    rw [hsome] at hwrite
    simp at hwrite
  | case3 o bytes hne after hwrite =>
    obtain ⟨taken, rest, hsome, -⟩ := h.write hne
    rw [hsome] at hwrite
    simp at hwrite
  | case4 o bytes hne taken after hwrite ih =>
    obtain ⟨taken', rest, hsome, hwilling⟩ := h.write hne
    rw [hsome] at hwrite
    obtain ⟨-, rfl⟩ := Prod.mk.inj hwrite
    exact ih hwilling

end Outbox

/-! ## What a buffer gives -/

namespace FrameBuffer

/-- What comes first of the deliveries is the next one, and the others come behind a frame. -/
theorem exists_drain_eq_cons {b after : FrameBuffer} {i rest : Inbox} {d : Delivery}
    (h : b.next i = (d, after, rest)) :
    ∃ ds, b.drain i = d :: ds ∧ ((∃ f, d = .frame f) → after.drain rest = ds) := by
  by_cases hframe : ∃ f, d = .frame f
  · obtain ⟨f, rfl⟩ := hframe
    exact ⟨after.drain rest, drain_of_frame h, fun _ => rfl⟩
  · exact ⟨[], drain_of_stop h (not_exists.1 hframe), fun hd => absurd hd hframe⟩

/-- The first delivery is what the next request comes to, and only behind a frame there are more. -/
theorem next_of_drain {b : FrameBuffer} {i : Inbox} {d : Delivery} {ds : List Delivery}
    (h : b.drain i = d :: ds) :
    ∃ after rest, b.next i = (d, after, rest) ∧ ((∃ f, d = .frame f) → after.drain rest = ds) := by
  rcases hnext : b.next i with ⟨delivery, after, rest⟩
  obtain ⟨others, hdrain, hmore⟩ := exists_drain_eq_cons hnext
  rw [h] at hdrain
  obtain ⟨rfl, rfl⟩ := List.cons.inj hdrain
  exact ⟨after, rest, rfl, hmore⟩

/-- One request for a frame on a closed stream that is cut by line. -/
theorem accounted_next {b after : FrameBuffer} {i rest : Inbox} {d : Delivery}
    (hframing : b.framing = .byLine) (hclosed : i.ending = .closed) (harr : Arriving i.arrivals)
    (h : b.next i = (d, after, rest)) :
    Accounted (b.account i.arrivals) d (after.account rest.arrivals) ∧ after.framing = .byLine ∧
      rest.ending = .closed ∧ Arriving rest.arrivals := by
  rcases hline : nextLine .closed i.arrivals b with ⟨delivery, left, arrivals⟩
  obtain ⟨hacc, hrest, hkept⟩ := accounted_nextLine harr hline
  rw [next_byLine hframing, hclosed, hline] at h
  cases h
  exact ⟨hacc, hkept.trans hframing, rfl, hrest⟩

/-- A stream that is cut by line, without failures and closed in the end, gives all frames owed. -/
theorem drain_of_line {b : FrameBuffer} {i : Inbox} (hframing : b.framing = .byLine)
    (hclosed : i.ending = .closed) (harr : Arriving i.arrivals) (hsound : faults i.arrivals = []) :
    b.drain i = (b.owed (contents i.arrivals)).map .frame ++ [.ended] := by
  fun_induction drain b i with
  | case1 b i f after rest hnext ih =>
    obtain ⟨hacc, hkept, hstill, hrest⟩ := accounted_next hframing hclosed harr hnext
    -- the frame that is given is one less to give
    obtain ⟨howed, hnone⟩ := Prod.mk.inj hacc
    rw [howed, ih hkept hstill hrest (hnone.symm.trans hsound)]
    rfl
  | case2 b i d after rest hlast hnext =>
    obtain ⟨hacc, -, -, -⟩ := accounted_next hframing hclosed harr hnext
    cases d with
    | frame f => exact absurd rfl (hlast f)
    | waiting => exact absurd hacc id
    | failed fault =>
      have hfault := (Prod.mk.inj hacc).2
      rw [hsound] at hfault
      simp at hfault
    | ended =>
      have howed : b.owed (contents i.arrivals) = [] := (Prod.mk.inj hacc.1).1
      rw [howed]
      rfl

/-- A new buffer that cuts by line gives the frames of all bytes, whatever chunks they arrive in. -/
theorem drain_of_chunks (size : Nat) {chunks : List (List UInt8)} (h : [] ∉ chunks) :
    (create .byLine size).drain (.ofChunks (max size 1) (chunks.map .bytes) .closed) =
      (referenceFrames (max size 1) chunks.flatten).map .frame ++ [.ended] := by
  have harr : Arriving (chunks.map .bytes) := by
    intro hmem
    obtain ⟨chunk, hchunk, hempty⟩ := List.mem_map.1 hmem
    exact h (Arrival.bytes.inj hempty ▸ hchunk)
  have hfaults : faults ((chunks.map Arrival.bytes).flatMap (·.cut (max size 1))) = [] := by
    rw [faults_cuts, faults_map_bytes]
  have hdrain := drain_of_line (b := create .byLine size)
    (i := .ofChunks (max size 1) (chunks.map .bytes) .closed) rfl rfl (arriving_cuts _ harr) hfaults
  change _ =
    (referenceFrames _ (contents ((chunks.map Arrival.bytes).flatMap _))).map _ ++ _ at hdrain
  rw [contents_cuts, contents_map_bytes] at hdrain
  exact hdrain

end FrameBuffer

/-! ## Answering what a buffer gives -/

/-- How a session halts at a delivery that is not a frame. -/
def Delivery.halt? : Delivery → Option Halt
  | .frame _ => none
  | .ended => some .peerClosed
  | .failed fault => some (.failed fault)
  | .waiting => some .idle

namespace Session

variable {σ : Type} [Bank σ]

/-- The session after it has answered frames, as far as the bank and the peer can tell. -/
structure Conversed (s : Session σ) (frames : List Frame) (after : Session σ) : Prop where
  bank : after.bank = (Frame.exchangeAll frames s.bank).2
  delivered : after.outbox.delivered =
    s.outbox.delivered ++ Exchange.wire (Frame.exchangeAll frames s.bank).1
  answered : after.answered =
    s.answered + (Exchange.responses (Frame.exchangeAll frames s.bank).1).length
  willing : s.outbox.Willing → after.outbox.Willing

theorem Conversed.nil {s after : Session σ} (hbank : after.bank = s.bank)
    (houtbox : after.outbox = s.outbox) (hanswered : after.answered = s.answered) :
    s.Conversed [] after := by
  refine ⟨hbank, ?_, hanswered, ?_⟩
  · rw [houtbox]
    exact (List.append_nil _).symm
  · rw [houtbox]
    exact id

theorem Conversed.cons {s mid after : Session σ} {frame : Frame} {frames : List Frame}
    (hfirst : s.Conversed [frame] mid) (hrest : mid.Conversed frames after) :
    s.Conversed (frame :: frames) after := by
  have hbank : mid.bank = (frame.reply s.bank).2 := hfirst.bank
  have hall : (Frame.exchangeAll (frame :: frames) s.bank).1 =
      (Frame.exchangeAll [frame] s.bank).1 ++ (Frame.exchangeAll frames mid.bank).1 := by
    rw [hbank]
    rfl
  refine ⟨?_, ?_, ?_, fun h => hrest.willing (hfirst.willing h)⟩
  · rw [hrest.bank, hbank]
    rfl
  · rw [hrest.delivered, hfirst.delivered, hall, Exchange.wire_append, List.append_assoc]
  · rw [hrest.answered, hfirst.answered, hall, Exchange.responses_append, List.length_append,
      Nat.add_assoc]

/-- To answer a frame fails only on a stream that does not take everything. -/
theorem answer_cases (s : Session σ) (frame : Frame) :
    (¬ s.outbox.Willing ∧ ∃ fault, (s.answer frame).1 = some (.failed fault)) ∨
      (s.answer frame).1 = none ∧ s.Conversed [frame] (s.answer frame).2 ∧
        (s.answer frame).2.buffer = s.buffer ∧ (s.answer frame).2.inbox = s.inbox := by
  unfold answer
  rcases hreply : frame.reply s.bank with ⟨_ | response, bank⟩
  · -- an empty line has no response
    right
    refine ⟨rfl, ⟨?_, ?_, ?_, id⟩, rfl, rfl⟩
    · simp [Frame.exchangeAll, hreply]
    · simp [Frame.exchangeAll, hreply, Exchange.wire_of_none]
    · simp [Frame.exchangeAll, hreply, Exchange.responses_of_none]
  · obtain ⟨part, rest, hbytes, hdelivered, hnone⟩ := s.outbox.send_splits response.bytes
    simp only [write]
    rcases hsend : s.outbox.send response.bytes with ⟨_ | fault, outbox⟩
    · right
      rw [hsend] at hdelivered hnone
      -- nothing is left of a response that was written without a fault
      obtain rfl := hnone.1 rfl
      rw [List.append_nil] at hbytes
      subst hbytes
      refine ⟨rfl, ⟨?_, ?_, ?_, ?_⟩, rfl, rfl⟩
      · simp [Frame.exchangeAll, hreply]
      · simpa [Frame.exchangeAll, hreply, Exchange.wire_of_some] using hdelivered
      · simp [Frame.exchangeAll, hreply, Exchange.responses_of_some]
      · intro hwilling
        have hstill := (hwilling.send response.bytes).2
        rw [hsend] at hstill
        exact hstill
    · left
      refine ⟨?_, fault, rfl⟩
      intro hwilling
      have hnever := (hwilling.send response.bytes).1
      rw [hsend] at hnever
      simp at hnever

/-- A session whose buffer gives no frame halts. -/
theorem turn_of_stop {s : Session σ} {d : Delivery} {buffer : FrameBuffer} {inbox : Inbox}
    {halt : Halt} (hnext : s.buffer.next s.inbox = (d, buffer, inbox))
    (hhalt : d.halt? = some halt) :
    s.turn = (some halt, { s with buffer, inbox }) := by
  unfold turn
  rw [hnext]
  cases d <;> cases hhalt <;> rfl

/-- A session answers the frames that its buffer gives and then halts, unless it could not write a
response. -/
theorem run_of_drain {s : Session σ} {frames : List Frame} {d : Delivery} {halt : Halt}
    (hdrain : s.buffer.drain s.inbox = frames.map .frame ++ [d]) (hhalt : d.halt? = some halt) :
    (¬ s.outbox.Willing ∧ ∃ fault, s.run.1 = .failed fault) ∨
      s.run.1 = halt ∧ s.Conversed frames s.run.2 := by
  induction frames generalizing s with
  | nil =>
    right
    obtain ⟨buffer, inbox, hnext, -⟩ := FrameBuffer.next_of_drain hdrain
    rw [run_of_halt (turn_of_stop hnext hhalt)]
    exact ⟨rfl, .nil rfl rfl rfl⟩
  | cons frame frames ih =>
    obtain ⟨buffer, inbox, hnext, hmore⟩ := FrameBuffer.next_of_drain hdrain
    have hturn : s.turn = ({ s with buffer, inbox } : Session σ).answer frame := by
      rw [turn, hnext]
    rcases answer_cases ({ s with buffer, inbox } : Session σ) frame with
      ⟨hshort, fault, hfailed⟩ | ⟨hnone, hfirst, hbuffer, hinbox⟩
    · left
      rw [← hturn] at hfailed
      rw [run_of_halt (Prod.ext hfailed rfl)]
      exact ⟨hshort, fault, rfl⟩
    · rw [← hturn] at hnone hfirst hbuffer hinbox
      rw [run_of_turn (Prod.ext hnone rfl)]
      have hrest : s.turn.2.buffer.drain s.turn.2.inbox = frames.map .frame ++ [d] := by
        rw [hbuffer, hinbox]
        exact hmore ⟨frame, rfl⟩
      -- `Conversed` does not look at the buffer, so what `hfirst` says is said of `s`
      have hstep : s.Conversed [frame] s.turn.2 :=
        ⟨hfirst.bank, hfirst.delivered, hfirst.answered, hfirst.willing⟩
      rcases ih hrest with ⟨hshort, fault, hfailed⟩ | ⟨hhalted, hconversed⟩
      · exact Or.inl ⟨fun hwilling => hshort (hstep.willing hwilling), fault, hfailed⟩
      · exact Or.inr ⟨hhalted, hstep.cons hconversed⟩

end Session

/-! ## Conversations by line -/

/-- The responses to frames that are answered one after the other, and the bank after them. -/
def Frame.converse {σ : Type} [Bank σ] : List Frame → σ → List Response × σ
  | [], bank => ([], bank)
  | .line text :: frames, bank =>
    let (response, bank) := Desk.answer (Request.ofLine text) bank
    let (responses, last) := converse frames bank
    (response :: responses, last)
  | .oversized :: frames, bank =>
    let (responses, last) := converse frames bank
    (.error lineTooLong :: responses, last)

/-- The frames that get a response: all but empty lines. -/
def Frame.spoken (frames : List Frame) : List Frame :=
  frames.filter (· ≠ .line [])

namespace Frame

variable {σ : Type} [Bank σ]

theorem length_converse (frames : List Frame) (bank : σ) :
    (converse frames bank).1.length = frames.length := by
  induction frames generalizing bank with
  | nil => rfl
  | cons frame frames ih => cases frame <;> simp [converse, ih]

/-- To leave empty lines out changes neither the responses nor the bank. -/
theorem converse_spoken (frames : List Frame) (bank : σ) :
    converse (spoken frames) bank =
      (Exchange.responses (exchangeAll frames bank).1, (exchangeAll frames bank).2) := by
  induction frames generalizing bank with
  | nil => rfl
  | cons frame frames ih =>
    have hcons : exchangeAll (frame :: frames) bank =
        (⟨frame, (frame.reply bank).1⟩ :: (exchangeAll frames (frame.reply bank).2).1,
          (exchangeAll frames (frame.reply bank).2).2) := rfl
    rw [hcons]
    rcases frame with ⟨_ | ⟨c, cs⟩⟩ | _
    · -- an empty line is left out on the one side and gets no response on the other
      exact ih bank
    · change converse (.line (c :: cs) :: spoken frames) bank = _
      simp only [converse, ih]
      rfl
    · change converse (.oversized :: spoken frames) bank = _
      simp only [converse, ih]
      rfl

end Frame

namespace Session

variable {σ : Type} [Bank σ]

/-- A new connection that is cut by line. The peer sends chunks and then closes the stream. -/
def byLine (bank : σ) (size : Nat) (chunks : List (List UInt8)) (outbox : Outbox) : Session σ where
  bank
  buffer := .create .byLine size
  inbox := .ofChunks (max size 1) (chunks.map .bytes) .closed
  outbox

/-- What a session comes to: the reason for its end, what it has delivered, how many responses it
has counted, and the bank. -/
def outcome (s : Session σ) : Except TransportFault CloseReason × List UInt8 × Nat × σ :=
  (s.serve.1, s.serve.2.outbox.delivered, s.serve.2.answered, s.serve.2.bank)

theorem serve_of_failed {s : Session σ} {fault : TransportFault} (h : s.run.1 = .failed fault) :
    s.serve.1 = .error fault := by
  unfold serve
  rcases hrun : s.run with ⟨halt, after⟩
  rw [hrun] at h
  subst h
  rfl

theorem serve_of_peerClosed {s : Session σ} (h : s.run.1 = .peerClosed) :
    s.serve = (.ok .peerClosed, s.run.2.close) := by
  unfold serve
  rcases hrun : s.run with ⟨halt, after⟩
  rw [hrun] at h
  subst h
  rfl

/-- A session by line answers the frames of all the bytes, unless it could not write a response. -/
theorem run_byLine (bank : σ) (size : Nat) {chunks : List (List UInt8)} (hchunks : [] ∉ chunks)
    (outbox : Outbox) :
    (¬ outbox.Willing ∧ ∃ fault, (byLine bank size chunks outbox).run.1 = .failed fault) ∨
      (byLine bank size chunks outbox).run.1 = .peerClosed ∧
        (byLine bank size chunks outbox).Conversed (referenceFrames (max size 1) chunks.flatten)
          (byLine bank size chunks outbox).run.2 := by
  have hdrain := FrameBuffer.drain_of_chunks size hchunks
  exact run_of_drain (s := byLine bank size chunks outbox) hdrain rfl

/-- What a session by line comes to if nothing has failed. -/
theorem outcome_byLine (bank : σ) (size : Nat) {chunks : List (List UInt8)} (hchunks : [] ∉ chunks)
    {outbox : Outbox} (hnew : outbox.delivered = [])
    (hsound : ∀ fault, (byLine bank size chunks outbox).serve.1 ≠ .error fault) :
    let spoken := Frame.spoken (referenceFrames (max size 1) chunks.flatten)
    (byLine bank size chunks outbox).outcome =
      (.ok .peerClosed, (Frame.converse spoken bank).1.flatMap Response.bytes, spoken.length,
        (Frame.converse spoken bank).2) := by
  intro spoken
  rcases run_byLine bank size hchunks outbox with ⟨-, fault, hfailed⟩ | ⟨hclosed, hconversed⟩
  · exact absurd (serve_of_failed hfailed) (hsound fault)
  · have hspoken := Frame.converse_spoken (referenceFrames (max size 1) chunks.flatten) bank
    have hlength := Frame.length_converse spoken bank
    unfold outcome
    rw [serve_of_peerClosed hclosed]
    change (_, (byLine bank size chunks outbox).run.2.outbox.delivered,
      (byLine bank size chunks outbox).run.2.answered,
      (byLine bank size chunks outbox).run.2.bank) = _
    rw [hconversed.delivered, hconversed.answered, hconversed.bank, ← hlength, hspoken]
    change (_, outbox.delivered ++ _, 0 + _, _) = _
    rw [hnew, Nat.zero_add]
    rfl

/-- A conversation by line depends on nothing but the bytes. Take two new connections to a bank on
which the same bytes arrive, each in chunks of its own, and which the peer then closes.

* No response fails to be written if the stream takes whatever is written.
* If none does, the session ends because the peer has closed the stream. It has delivered one
  response for each frame of the bytes but empty lines, in order: to a line what the desk answers to
  it with the bank as the frames before have left it, and to an oversized frame that it is too long.
  It has counted as many responses as there are such frames.
* If none does on the other connection either, that one comes to the same. -/
theorem conversation_depends_on_bytes (bank : σ) (size : Nat) {chunks cuts : List (List UInt8)}
    (hchunks : [] ∉ chunks) (hcuts : [] ∉ cuts) (hsame : cuts.flatten = chunks.flatten)
    {outbox other : Outbox} (hnew : outbox.delivered = []) (hother : other.delivered = []) :
    let s := byLine bank size chunks outbox
    let t := byLine bank size cuts other
    let spoken := Frame.spoken (referenceFrames (max size 1) chunks.flatten)
    (outbox.Willing → ∀ fault, s.serve.1 ≠ .error fault) ∧
    ((∀ fault, s.serve.1 ≠ .error fault) →
      s.outcome = (.ok .peerClosed, (Frame.converse spoken bank).1.flatMap Response.bytes,
        spoken.length, (Frame.converse spoken bank).2)) ∧
    ((∀ fault, s.serve.1 ≠ .error fault) → (∀ fault, t.serve.1 ≠ .error fault) →
      t.outcome = s.outcome) := by
  intro s t spoken
  refine ⟨?_, outcome_byLine bank size hchunks hnew, ?_⟩
  · intro hwilling fault
    rcases run_byLine bank size hchunks outbox with ⟨hshort, -⟩ | ⟨hclosed, -⟩
    · exact absurd hwilling hshort
    · rw [serve_of_peerClosed hclosed]
      simp
  · intro hsound htoo
    rw [outcome_byLine bank size hchunks hnew hsound, outcome_byLine bank size hcuts hother htoo,
      hsame]

/-- A ledger for two clients who talk about the same accounts. -/
def talkedAbout : Ledger where
  accounts := [
    { id := 1, balance := Decimal.ofParts 500 2, currency := "USD" },
    { id := 2, balance := Decimal.ofParts 0 2, currency := "USD" }]
  ascending := by decide

/-- A transfer, an empty line, a line of seventeen bytes and a look-up without a line feed. -/
def talk : List UInt8 :=
  Text.Utf8.encode "TRANSFER 1 2 3\r\n\nPINGPINGPINGPINGP\nBALANCE 2".toList

/-- The bytes of `talk`, cut inside the first line ending, behind the empty line and in the long
line. -/
def tornTalk : List (List UInt8) :=
  [talk.take 15, (talk.drop 15).take 2, (talk.drop 17).take 4, talk.drop 21]

/-- A stream that takes three bytes, then one, and then two at a time. -/
def slowStream : Outbox := { portions := [3, 1], grain := some 2 }

theorem tornTalk_depends_on_bytes :
    let s := byLine talkedAbout 16 [talk] {}
    let t := byLine talkedAbout 16 tornTalk slowStream
    [] ∉ [talk] ∧ [] ∉ tornTalk ∧ tornTalk.flatten = [talk].flatten ∧ slowStream.Willing ∧
    Frame.spoken (referenceFrames 16 talk) =
      [.line "TRANSFER 1 2 3".toList, .oversized, .line "BALANCE 2".toList] ∧
    s.outcome.1 = .ok .peerClosed ∧
    s.outcome.2.1 = Text.Utf8.encode "OK\nERROR Line too long\nBALANCE 2 3.00\n".toList ∧
    s.outcome.2.2.1 = 3 ∧ t.outcome = s.outcome := by
  intro s t
  have hchunks : [] ∉ [talk] := by decide +kernel
  have hcuts : [] ∉ tornTalk := by decide +kernel
  have hsame : tornTalk.flatten = [talk].flatten := by decide +kernel
  have hslow : slowStream.Willing := ⟨rfl, by decide, by decide⟩
  have hquick : Outbox.Willing {} := ⟨rfl, by decide, by decide⟩
  have hnew : Outbox.delivered {} = [] := rfl
  have hother : slowStream.delivered = [] := rfl
  have hframes : Frame.spoken (referenceFrames 16 talk) =
      [.line "TRANSFER 1 2 3".toList, .oversized, .line "BALANCE 2".toList] := by
    decide +kernel
  have hbytes : (Frame.converse (Frame.spoken (referenceFrames 16 talk)) talkedAbout).1.flatMap
      Response.bytes = Text.Utf8.encode "OK\nERROR Line too long\nBALANCE 2 3.00\n".toList := by
    decide +kernel
  obtain ⟨hsound, houtcome, halike⟩ :=
    conversation_depends_on_bytes talkedAbout 16 hchunks hcuts hsame hnew hother
  obtain ⟨htoo, -, -⟩ :=
    conversation_depends_on_bytes talkedAbout 16 hcuts hchunks hsame.symm hother hnew
  have hended := houtcome (hsound hquick)
  refine ⟨hchunks, hcuts, hsame, hslow, hframes, ?_, ?_, ?_, ?_⟩
  · rw [hended]
  · rw [hended]
    exact hbytes
  · rw [hended]
    exact congrArg List.length hframes
  · exact halike (hsound hquick) (htoo hslow)

end Session

end TransferDesk
