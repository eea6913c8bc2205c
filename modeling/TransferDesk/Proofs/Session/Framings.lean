import TransferDesk.Proofs.Session.Conversation
/-!
# One line in each read

To cut by read is to take a read for a line. If every read is a line (`LineChunks`) and none is
longer than the buffer, the two ways of cutting give the same frames: the texts of the chunks, one
by one (`FrameBuffer.drain_byRead`, `LineChunks.drain_byLine`).

A session sees nothing of its buffer but the frames. So two sessions whose buffers give the same,
with the same bank and the same stream to write to, come to the same
(`Session.outcome_eq_of_sameFrames`), whatever is in the frames and however writing goes.
-/

namespace TransferDesk

/-- Chunks of one line each. Every chunk ends in its only line feed, or it is the last one and has
none. -/
inductive LineChunks : List (List UInt8) → Prop where
  | nil : LineChunks []
  | tail {bytes : List UInt8} (hopen : lineFeed ∉ bytes) (hne : bytes ≠ []) : LineChunks [bytes]
  | line {content : List UInt8} {chunks : List (List UInt8)} (hcontent : lineFeed ∉ content)
    (hrest : LineChunks chunks) : LineChunks ((content ++ [lineFeed]) :: chunks)

/-- The deliveries of chunks that are a line each, and then of the end of the stream. -/
def chunkDeliveries (chunks : List (List UInt8)) : List Delivery :=
  chunks.map (fun chunk => .frame (.line (decodeLine chunk))) ++ [.ended]

namespace LineChunks

variable {chunks : List (List UInt8)}

theorem nil_not_mem (h : LineChunks chunks) : [] ∉ chunks := by
  induction h with
  | nil => exact List.not_mem_nil
  | tail hopen hne =>
    intro hmem
    exact hne (List.mem_singleton.1 hmem).symm
  | line hcontent hrest ih =>
    intro hmem
    rcases List.mem_cons.1 hmem with he | hmem
    · simp at he
    · exact ih hmem

/-- The chunks are the lines of all the bytes. -/
theorem linePieces_flatten (h : LineChunks chunks) : linePieces chunks.flatten = chunks := by
  induction h with
  | nil => rfl
  | tail hopen hne =>
    rw [List.flatten_singleton]
    exact linePieces_of_not_mem hopen hne
  | line hcontent hrest ih =>
    rw [List.flatten_cons, List.append_assoc, List.singleton_append, linePieces_line hcontent, ih]

end LineChunks

theorem length_pieceContent_le (piece : List UInt8) :
    (pieceContent piece).length ≤ piece.length := by
  unfold pieceContent
  split
  · rw [List.length_dropLast]
    omega
  · exact Nat.le_refl _

/-- A line that fits with its line ending is not too long. -/
theorem pieceFrame_of_le {size : Nat} {piece : List UInt8} (h : piece.length ≤ size) :
    pieceFrame size piece = .line (decodeLine piece) := by
  unfold pieceFrame
  rw [if_neg]
  have hcontent := FrameBuffer.contentLength_le (pieceContent piece)
  have hpiece := length_pieceContent_le piece
  omega

theorem pieces_of_le {size : Nat} {bytes : List UInt8} (h : bytes.length ≤ size) :
    pieces size bytes = [bytes] := by
  rw [pieces, if_pos (Or.inr h)]

/-- What fits in one read is not cut. -/
theorem Inbox.arrivals_ofChunks {size : Nat} {chunks : List (List UInt8)}
    (h : ∀ chunk ∈ chunks, chunk.length ≤ size) (ending : Ending) :
    Inbox.ofChunks size (chunks.map .bytes) ending = ⟨chunks.map .bytes, ending⟩ := by
  unfold Inbox.ofChunks
  congr 1
  induction chunks with
  | nil => rfl
  | cons chunk chunks ih =>
    obtain ⟨hchunk, hrest⟩ := List.forall_mem_cons.1 h
    rw [List.map_cons, List.flatMap_cons, ih hrest]
    show (pieces size chunk).map Arrival.bytes ++ _ = _
    rw [pieces_of_le hchunk]
    rfl

namespace FrameBuffer

/-- A buffer that cuts by read gives the text of every read. -/
theorem drain_byRead {b : FrameBuffer} (hframing : b.framing = .byRead) {chunks : List (List UInt8)}
    (h : [] ∉ chunks) : b.drain ⟨chunks.map .bytes, .closed⟩ = chunkDeliveries chunks := by
  induction chunks with
  | nil =>
    have hnext : b.next ⟨[], .closed⟩ = (.ended, b, ⟨[], .closed⟩) := by
      unfold next
      rw [hframing]
      rfl
    exact drain_of_stop hnext (by simp)
  | cons chunk chunks ih =>
    rw [List.mem_cons, not_or] at h
    have hnext : b.next ⟨.bytes chunk :: chunks.map .bytes, .closed⟩ =
        (.frame (.line (decodeLine chunk)), b, ⟨chunks.map .bytes, .closed⟩) := by
      unfold next
      rw [hframing]
      rcases chunk with _ | ⟨x, xs⟩
      · exact absurd rfl h.1
      · rfl
    rw [List.map_cons, drain_of_frame hnext, ih h.2]
    rfl

end FrameBuffer

/-- A buffer that cuts by line gives the text of every chunk, if the chunks are lines that fit
in. -/
theorem LineChunks.drain_byLine {chunks : List (List UInt8)} (h : LineChunks chunks) {size : Nat}
    (hfits : ∀ chunk ∈ chunks, chunk.length ≤ max size 1) :
    (FrameBuffer.create .byLine size).drain (.ofChunks (max size 1) (chunks.map .bytes) .closed) =
      chunkDeliveries chunks := by
  rw [FrameBuffer.drain_of_chunks size h.nil_not_mem]
  unfold referenceFrames chunkDeliveries
  rw [h.linePieces_flatten, List.map_map]
  congr 1
  apply List.map_congr_left
  intro chunk hchunk
  exact congrArg Delivery.frame (pieceFrame_of_le (hfits chunk hchunk))

/-! ## Sessions that get the same frames -/

namespace Session

variable {σ : Type}

/-- Two sessions that have come to the same, whatever their buffers hold. -/
structure Agrees (s t : Session σ) : Prop where
  bank : s.bank = t.bank
  outbox : s.outbox = t.outbox
  answered : s.answered = t.answered

/-- The frames of two sessions are the same from here on. -/
def SameFrames (s t : Session σ) : Prop :=
  s.buffer.drain s.inbox = t.buffer.drain t.inbox

variable [Bank σ]

/-- To answer a frame takes nothing out of the buffer. -/
theorem drain_answer (s : Session σ) (frame : Frame) :
    (s.answer frame).2.buffer.drain (s.answer frame).2.inbox = s.buffer.drain s.inbox := by
  unfold answer write
  split
  · rfl
  · split <;> rfl

theorem Agrees.answer {s t : Session σ} (h : s.Agrees t) (frame : Frame) :
    (s.answer frame).1 = (t.answer frame).1 ∧ (s.answer frame).2.Agrees (t.answer frame).2 := by
  unfold Session.answer
  rw [h.bank]
  rcases frame.reply t.bank with ⟨_ | response, bank⟩
  · exact ⟨rfl, rfl, h.outbox, h.answered⟩
  · simp only [write]
    rw [h.outbox]
    rcases t.outbox.send response.bytes with ⟨_ | fault, outbox⟩
    · exact ⟨rfl, rfl, rfl, congrArg (· + 1) h.answered⟩
    · exact ⟨rfl, rfl, rfl, h.answered⟩

/-- One turn: the same frame comes to the same, and the frames behind it are the same still. -/
theorem Agrees.turn {s t : Session σ} (h : s.Agrees t) (hframes : s.SameFrames t) :
    s.turn.1 = t.turn.1 ∧ s.turn.2.Agrees t.turn.2 ∧
      (s.turn.1 = none → s.turn.2.SameFrames t.turn.2) := by
  rcases hs : s.buffer.next s.inbox with ⟨d, buffer, inbox⟩
  obtain ⟨ds, hdrain, hmore⟩ := FrameBuffer.exists_drain_eq_cons hs
  obtain ⟨buffer', inbox', ht, hmore'⟩ := FrameBuffer.next_of_drain (hframes.symm.trans hdrain)
  rcases hhalt : d.halt? with _ | halt
  · cases d with
    | frame frame =>
      have hsturn : s.turn = ({ s with buffer, inbox } : Session σ).answer frame := by
        rw [Session.turn, hs]
      have htturn : t.turn =
          ({ t with buffer := buffer', inbox := inbox' } : Session σ).answer frame := by
        rw [Session.turn, ht]
      have hboth : ({ s with buffer, inbox } : Session σ).Agrees
          { t with buffer := buffer', inbox := inbox' } :=
        ⟨h.bank, h.outbox, h.answered⟩
      rw [hsturn, htturn]
      refine ⟨(hboth.answer frame).1, (hboth.answer frame).2, fun _ => ?_⟩
      unfold SameFrames
      rw [drain_answer, drain_answer]
      exact (hmore ⟨frame, rfl⟩).trans (hmore' ⟨frame, rfl⟩).symm
    | ended | failed | waiting => cases hhalt
  · rw [turn_of_stop hs hhalt, turn_of_stop ht hhalt]
    exact ⟨rfl, ⟨h.bank, h.outbox, h.answered⟩, by simp⟩

theorem Agrees.run {s t : Session σ} (h : s.Agrees t) (hframes : s.SameFrames t) :
    s.run.1 = t.run.1 ∧ s.run.2.Agrees t.run.2 := by
  induction s using Session.run.induct generalizing t with
  | case1 s halt after hturn =>
    obtain ⟨hsame, hagrees, -⟩ := h.turn hframes
    have hother : t.turn = (some halt, t.turn.2) := by
      apply Prod.ext
      · rw [← hsame, hturn]
      · rfl
    rw [run_of_halt hturn, run_of_halt hother]
    rw [hturn] at hagrees
    exact ⟨rfl, hagrees⟩
  | case2 s after hturn ih =>
    obtain ⟨hsame, hagrees, hrest⟩ := h.turn hframes
    have hother : t.turn = (none, t.turn.2) := by
      apply Prod.ext
      · rw [← hsame, hturn]
      · rfl
    rw [run_of_turn hturn, run_of_turn hother]
    rw [hturn] at hagrees hrest
    exact ih hagrees (hrest rfl)

/-- Sessions that get the same frames come to the same. -/
theorem outcome_eq_of_sameFrames {s t : Session σ} (h : s.Agrees t) (hframes : s.SameFrames t) :
    s.outcome = t.outcome := by
  obtain ⟨hhalt, hbank, houtbox, hanswered⟩ := h.run hframes
  unfold outcome serve
  rcases hs : s.run with ⟨halt, after⟩
  rcases ht : t.run with ⟨halt', after'⟩
  rw [hs, ht] at hhalt hbank houtbox hanswered
  dsimp only at hhalt hbank houtbox hanswered
  subst hhalt
  cases halt <;> simp [close, hbank, houtbox, hanswered]

/-- A new connection that is cut by read. The peer sends chunks and then closes the stream. -/
def byRead (bank : σ) (size : Nat) (chunks : List (List UInt8)) (outbox : Outbox) : Session σ :=
  { byLine bank size chunks outbox with buffer := .create .byRead size }

/-- The two ways of cutting agree about a client that sends one line at a time. Take any chunks of
one line each, none of them longer than the buffer, the last one perhaps without its line feed, and
then the end of the stream.

* Cut by read and cut by line, the stream gives the same frames: the text of each chunk.
* Whatever the bank and however the stream takes what is written, the two sessions end alike. They
have delivered the same bytes and counted as many responses, and the bank is the same after them. -/
theorem framings_agree (bank : σ) (size : Nat) {chunks : List (List UInt8)}
    (hlines : LineChunks chunks)
    (hfits : ∀ chunk ∈ chunks, chunk.length ≤ max size 1) (outbox : Outbox) :
    let stream := Inbox.ofChunks (max size 1) (chunks.map .bytes) .closed
    (FrameBuffer.create .byRead size).drain stream = chunkDeliveries chunks ∧
    (FrameBuffer.create .byLine size).drain stream = chunkDeliveries chunks ∧
    (byRead bank size chunks outbox).outcome = (byLine bank size chunks outbox).outcome := by
  intro stream
  have hread : (FrameBuffer.create .byRead size).drain stream = chunkDeliveries chunks := by
    show (FrameBuffer.create .byRead size).drain (Inbox.ofChunks _ _ _) = _
    rw [Inbox.arrivals_ofChunks hfits]
    exact FrameBuffer.drain_byRead rfl hlines.nil_not_mem
  have hline : (FrameBuffer.create .byLine size).drain stream = chunkDeliveries chunks :=
    hlines.drain_byLine hfits
  refine ⟨hread, hline, ?_⟩
  apply outcome_eq_of_sameFrames
  · exact ⟨rfl, rfl, rfl⟩
  · exact hread.trans hline.symm

/-- A ledger for a client who sends one line at a time. -/
def patientClients : Ledger where
  accounts := [
    { id := 1, balance := Decimal.ofParts 900 2, currency := "USD" },
    { id := 2, balance := Decimal.ofParts 0 2, currency := "USD" }]
  ascending := by decide

/-- A line of fifteen bytes, an empty one, one that is no text, one with a carriage return inside,
and one without a line feed. -/
def singleLines : List (List UInt8) :=
  [Text.Utf8.encode "TRANSFER 1 2 3".toList ++ [lineFeed], [] ++ [lineFeed], [255] ++ [lineFeed],
    [80, 73, 13, 78, 71, 13] ++ [lineFeed], Text.Utf8.encode "BALANCE 2".toList]

theorem singleLines_agree :
    LineChunks singleLines ∧ (∀ chunk ∈ singleLines, chunk.length ≤ max 15 1) ∧
    (byRead patientClients 15 singleLines slowStream).outcome =
      (byLine patientClients 15 singleLines slowStream).outcome ∧
    (byRead patientClients 15 singleLines slowStream).outcome.1 = .ok .peerClosed ∧
    (byRead patientClients 15 singleLines slowStream).outcome.2.1 =
      Text.Utf8.encode "OK\nERROR Unknown command\nERROR Unknown command\nBALANCE 2 3.00\n".toList ∧
    (byRead patientClients 15 singleLines slowStream).outcome.2.2.1 = 4 := by
  have hlines : LineChunks singleLines := by
    refine .line ?_ (.line ?_ (.line ?_ (.line ?_ (.tail ?_ ?_)))) <;> decide +kernel
  have hfits : ∀ chunk ∈ singleLines, chunk.length ≤ max 15 1 := by decide +kernel
  obtain ⟨-, -, hagree⟩ := framings_agree patientClients 15 hlines hfits slowStream
  refine ⟨hlines, hfits, hagree, ?_, ?_, ?_⟩
  · decide +kernel
  · decide +kernel
  · decide +kernel

end Session

end TransferDesk
