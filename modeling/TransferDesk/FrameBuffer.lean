import TransferDesk.Frame
import TransferDesk.Stream
/-!
# Cutting a stream into frames

A `FrameBuffer` is the frame reader of a connection. It cuts what comes in from a stream into
frames, in one of two ways:

* by read: every read is a frame;
* by line: a frame ends with a line feed, however the bytes arrive. A line of more than `size`
  bytes, its line ending apart, is an oversized frame. What is left before the end of the stream is
  a frame if it is not empty.

While a line is longer than the buffer takes, its bytes are thrown away as they come in, so that
what is pending stays bounded.
-/

namespace TransferDesk

/-- The state between two frames. -/
structure FrameBuffer where
  framing : Framing
  /-- The most bytes that a line may have and that one read takes. -/
  size : Nat
  /-- Bytes that have been read and belong to no frame yet. -/
  pending : List UInt8 := []
  /-- Whether the beginning of the current line has been thrown away. -/
  discarding : Bool := false
  size_pos : 0 < size := by decide
deriving DecidableEq, Repr

/-- What comes of asking for the next frame. -/
inductive Delivery where
  | frame (f : Frame)
  /-- The stream is at its end and nothing is left. -/
  | ended
  | failed (fault : TransportFault)
  /-- No frame is complete and nothing more has arrived. -/
  | waiting
deriving DecidableEq, Repr

namespace FrameBuffer

/-- A buffer in which nothing is pending, with room for at least one byte. -/
def create (framing : Framing) (size : Nat) : FrameBuffer where
  framing
  size := max size 1
  size_pos := by omega

/-! ## Frames from pending bytes -/

/-- Throws away the rest of a line whose beginning has been thrown away, if its end has come in. -/
def skipRest (b : FrameBuffer) : FrameBuffer :=
  if b.discarding then
    match splitLine? b.pending with
    | none => b
    | some (_, rest) => { b with pending := rest, discarding := false }
  else b

/-- Takes the first complete line out of the pending bytes. -/
def takeLine (b : FrameBuffer) : Option Frame × FrameBuffer :=
  if b.discarding then (none, b)
  else
    match splitLine? b.pending with
    | none => (none, b)
    | some (content, rest) => (some (lineFrame b.size content), { b with pending := rest })

/-- Throws the pending bytes away if they are more than a line may have. That makes a frame, unless
the beginning of the line has been thrown away before. -/
def takeOverflow (b : FrameBuffer) : Option Frame × FrameBuffer :=
  if b.size < contentLength b.pending then
    (if b.discarding then none else some .oversized, { b with pending := [], discarding := true })
  else (none, b)

/-- The next frame for which nothing more has to be read. -/
def takeFrame (b : FrameBuffer) : Option Frame × FrameBuffer :=
  match b.skipRest.takeLine with
  | (some f, b) => (some f, b)
  | (none, b) => b.takeOverflow

/-- Takes what is pending at the end of the stream. -/
def takeLast (b : FrameBuffer) : Delivery × FrameBuffer :=
  (if b.discarding ∨ b.pending = [] then .ended else .frame (.line (decodeLine b.pending)),
    { b with pending := [] })

/-! ## Frames from a stream -/

/-- The next frame of a stream that is cut by line. -/
def nextLine (ending : Ending) :
    List Arrival → FrameBuffer → Delivery × FrameBuffer × List Arrival
  | [], b =>
    match b.takeFrame with
    | (some f, b) => (.frame f, b, [])
    | (none, b) =>
      match ending with
      | .closed => let (last, b) := b.takeLast; (last, b, [])
      | .silent => (.waiting, b, [])
  | arrival :: rest, b =>
    match b.takeFrame with
    | (some f, b) => (.frame f, b, arrival :: rest)
    | (none, b) =>
      match arrival with
      | .failure fault => (.failed fault, b, rest)
      | .bytes [] => let (last, b) := b.takeLast; (last, b, rest)
      | .bytes bytes => nextLine ending rest { b with pending := b.pending ++ bytes }

/-- The next frame of a stream that is cut by read. -/
def nextRead (ending : Ending) : List Arrival → Delivery × List Arrival
  | [] =>
    match ending with
    | .closed => (.ended, [])
    | .silent => (.waiting, [])
  | .failure fault :: rest => (.failed fault, rest)
  | .bytes [] :: rest => (.ended, rest)
  | .bytes bytes :: rest => (.frame (.line (decodeLine bytes)), rest)

/-- The next frame of a stream. -/
def next (b : FrameBuffer) (i : Inbox) : Delivery × FrameBuffer × Inbox :=
  match b.framing with
  | .byRead =>
    let (delivery, arrivals) := nextRead i.ending i.arrivals
    (delivery, b, { i with arrivals })
  | .byLine =>
    let (delivery, b, arrivals) := nextLine i.ending i.arrivals b
    (delivery, b, { i with arrivals })

/-! ## Waiting -/

theorem takeLast_ne_waiting (b : FrameBuffer) : b.takeLast.1 ≠ .waiting := by
  unfold takeLast
  split <;> simp

theorem nextLine_eq_waiting {ending : Ending} {arrivals rest : List Arrival} {b after : FrameBuffer}
    (h : nextLine ending arrivals b = (.waiting, after, rest)) : ending = .silent ∧ rest = [] := by
  induction arrivals generalizing b with
  | nil =>
    rw [nextLine] at h
    split at h
    · simp at h
    · split at h
      · exact absurd (congrArg Prod.fst h) (takeLast_ne_waiting _)
      · exact ⟨rfl, (congrArg (fun x => x.2.2) h).symm⟩
  | cons arrival arrivals ih =>
    rw [nextLine] at h
    split at h
    · simp at h
    · split at h
      · simp at h
      · exact absurd (congrArg Prod.fst h) (takeLast_ne_waiting _)
      · exact ih h

theorem nextRead_eq_waiting {ending : Ending} {arrivals rest : List Arrival}
    (h : nextRead ending arrivals = (.waiting, rest)) : ending = .silent ∧ rest = [] := by
  unfold nextRead at h
  split at h
  · split at h
    · simp at h
    · exact ⟨rfl, (congrArg Prod.snd h).symm⟩
  all_goals simp at h

/-- A stream waits only if everything has been read and the peer says no more for now. -/
theorem next_eq_waiting {b after : FrameBuffer} {i rest : Inbox}
    (h : b.next i = (.waiting, after, rest)) : i.ending = .silent ∧ rest = ⟨[], .silent⟩ := by
  unfold next at h
  split at h
  · rcases hn : nextRead i.ending i.arrivals with ⟨delivery, arrivals⟩
    rw [hn] at h
    simp only [Prod.mk.injEq] at h
    obtain ⟨rfl, -, rfl⟩ := h
    obtain ⟨hending, rfl⟩ := nextRead_eq_waiting hn
    exact ⟨hending, by rw [hending]⟩
  · rcases hn : nextLine i.ending i.arrivals b with ⟨delivery, left, arrivals⟩
    rw [hn] at h
    simp only [Prod.mk.injEq] at h
    obtain ⟨rfl, -, rfl⟩ := h
    obtain ⟨hending, rfl⟩ := nextLine_eq_waiting hn
    exact ⟨hending, by rw [hending]⟩

end FrameBuffer

end TransferDesk
