import TransferDesk.Proofs.Framing.Complete
/-!
# Looking for a frame again and again

A buffer that has waited for a frame, and is asked again when more has arrived, gives what it would
have given if it had not been asked before (`next_of_waiting`). So nothing is lost by asking early.

A request comes to the end of the stream exactly when a read meets it and no frame is left before it
(`next_eq_ended_iff`), and a failure that it reports is one that has arrived (`reads_of_next`).

Lines that have all come in are given without waiting for more (`drain_of_complete`).
-/

namespace TransferDesk

namespace FrameBuffer

/-! ## Asking early -/

theorem takeFrame_of_quiet {b : FrameBuffer} (h : b.Quiet) : b.takeFrame = (none, b) := by
  have hnone : splitLine? b.pending = none := splitLine?_eq_none_iff.2 h.no_line
  have hskip : b.skipRest = b := by
    unfold skipRest
    rw [hnone, ite_self]
  unfold takeFrame
  rw [hskip, takeLine, hnone, ite_self]
  change b.takeOverflow = _
  rw [takeOverflow, if_neg (Nat.not_lt.2 h.fits)]

/-- A buffer without a frame may drop what it need not keep before it is asked. -/
theorem nextLine_of_takeFrame {b q : FrameBuffer} (h : b.takeFrame = (none, q)) (ending : Ending)
    (arrivals : List Arrival) : nextLine ending arrivals b = nextLine ending arrivals q := by
  have hq : q.takeFrame = (none, q) := takeFrame_of_quiet ((owed_takeFrame h).2 rfl)
  cases arrivals with
  | nil => rw [nextLine, nextLine, h, hq]
  | cons arrival arrivals => rw [nextLine, nextLine, h, hq]

/-- A request that has waited has read everything up to its end, and the next one goes on from
there. -/
theorem nextLine_of_waiting {read rest left : List Arrival} {b q : FrameBuffer} {ending : Ending}
    (h : nextLine .silent read b = (.waiting, q, left)) :
    nextLine ending (read ++ rest) b = nextLine ending rest q := by
  induction read generalizing b with
  | nil =>
    rw [nextLine] at h
    rcases htake : b.takeFrame with ⟨_ | f, c⟩
    · rw [htake] at h
      cases h
      exact nextLine_of_takeFrame htake ending rest
    · rw [htake] at h
      cases h
  | cons arrival read ih =>
    rw [nextLine] at h
    rw [List.cons_append, nextLine]
    rcases htake : b.takeFrame with ⟨_ | f, c⟩
    · rw [htake] at h
      rcases arrival with (_ | ⟨x, xs⟩) | fault
      · exact absurd (congrArg Prod.fst h) (takeLast_ne_waiting c)
      · exact ih h
      · cases h
    · rw [htake] at h
      cases h

theorem alike_of_nextLine {ending : Ending} {arrivals rest : List Arrival} {b after : FrameBuffer}
    {delivery : Delivery} (h : nextLine ending arrivals b = (delivery, after, rest)) :
    b.Alike after := by
  obtain ⟨_, _, q, -, -, -, halike, hstops⟩ := nextLine_cases h
  cases hstops with
  | frame hafter => exact halike.trans hafter
  | waiting => exact halike
  | failed => exact halike
  | ended => exact halike.trans ⟨rfl, rfl⟩
  | closed => exact halike.trans ⟨rfl, rfl⟩

/-- A request that has waited changes nothing about the requests that follow. -/
theorem next_of_waiting {read rest : List Arrival} {b q : FrameBuffer} {ending : Ending}
    {left : Inbox} (h : b.next ⟨read, .silent⟩ = (.waiting, q, left)) :
    b.next ⟨read ++ rest, ending⟩ = q.next ⟨rest, ending⟩ := by
  unfold next at h
  cases hframing : b.framing with
  | byRead =>
    rw [hframing] at h
    -- a read that has arrived would have been a frame
    rcases read with _ | ⟨(_ | ⟨x, xs⟩) | fault, read⟩
    · cases h
      rfl
    all_goals cases h
  | byLine =>
    rw [hframing] at h
    rcases hline : nextLine .silent read b with ⟨delivery, after, arrivals⟩
    rw [hline] at h
    cases h
    have hkept : q.framing = .byLine := (alike_of_nextLine hline).framing.trans hframing
    unfold next
    rw [hframing, hkept, nextLine_of_waiting hline]

theorem drain_eq_of_next {b c : FrameBuffer} {i j : Inbox} (h : b.next i = c.next j) :
    b.drain i = c.drain j := by
  rcases hnext : c.next j with ⟨delivery, after, rest⟩
  rw [hnext] at h
  by_cases hframe : ∃ f, delivery = .frame f
  · obtain ⟨f, rfl⟩ := hframe
    rw [drain_of_frame h, drain_of_frame hnext]
  · rw [drain_of_stop h (not_exists.1 hframe), drain_of_stop hnext (not_exists.1 hframe)]

theorem drain_of_waiting {read rest : List Arrival} {b q : FrameBuffer} {ending : Ending}
    {left : Inbox} (h : b.next ⟨read, .silent⟩ = (.waiting, q, left)) :
    b.drain ⟨read ++ rest, ending⟩ = q.drain ⟨rest, ending⟩ :=
  drain_eq_of_next (next_of_waiting h)

/-! ## What is read -/

/-- The first arrivals are read, and a failure that is reported is the last of them. -/
def Reads (arrivals : List Arrival) (d : Delivery) (rest : List Arrival) : Prop :=
  ∃ read, arrivals = read ++ rest ∧
    ∀ fault, d = .failed fault → read.getLast? = some (.failure fault)

theorem reads_of_nextRead {ending : Ending} {arrivals rest : List Arrival} {d : Delivery}
    (h : nextRead ending arrivals = (d, rest)) : Reads arrivals d rest := by
  unfold nextRead at h
  split at h
  · split at h <;> cases h <;> exact ⟨[], rfl, by simp⟩
  -- otherwise exactly one read is taken
  all_goals
    cases h
    exact ⟨[_], rfl, by simp⟩

theorem reads_of_nextLine {ending : Ending} {arrivals rest : List Arrival} {b after : FrameBuffer}
    {d : Delivery} (h : nextLine ending arrivals b = (d, after, rest)) : Reads arrivals d rest := by
  obtain ⟨read, left, q, rfl, -, -, -, hstops⟩ := nextLine_cases h
  have hlast (b : FrameBuffer) (fault : TransportFault) : b.takeLast.1 ≠ .failed fault := by
    unfold takeLast
    split <;> simp
  cases hstops with
  | frame => exact ⟨read, rfl, by simp⟩
  | waiting => exact ⟨read, rfl, by simp⟩
  | failed hquiet fault rest => exact ⟨read ++ [.failure fault], by simp, by simp⟩
  | ended hquiet rest => exact ⟨read ++ [.bytes []], by simp, fun _ hd => absurd hd (hlast q _)⟩
  | closed hquiet => exact ⟨read, rfl, fun _ hd => absurd hd (hlast q _)⟩

theorem reads_of_next {b after : FrameBuffer} {i rest : Inbox} {d : Delivery}
    (h : b.next i = (d, after, rest)) : Reads i.arrivals d rest.arrivals := by
  unfold next at h
  cases hframing : b.framing with
  | byRead =>
    rw [hframing] at h
    cases h
    exact reads_of_nextRead rfl
  | byLine =>
    rw [hframing] at h
    cases h
    exact reads_of_nextLine rfl

/-! ## The end of the stream -/

theorem takeLast_eq_ended_iff {b : FrameBuffer} (h : b.Quiet) :
    b.takeLast.1 = .ended ↔ b.owed [] = [] := by
  rcases (owed_takeLast h).1 with ⟨hended, hnone⟩ | ⟨f, hframe, hsome⟩
  · exact iff_of_true hended hnone
  · rw [hframe, hsome]
    exact iff_of_false (by simp) (List.cons_ne_nil f [])

end FrameBuffer

/-- The arrivals in front of the first that brings no bytes. -/
def Inbox.ahead (i : Inbox) : List Arrival :=
  i.arrivals.takeWhile (·.content ≠ [])

/-- Whether the first read that brings no bytes meets the end of the stream. -/
def Inbox.endsNext (i : Inbox) : Bool :=
  match i.arrivals.dropWhile (·.content ≠ []) with
  | [] => i.ending = .closed
  | arrival :: _ => arrival = .bytes []

namespace FrameBuffer

/-- The next read to bring no bytes meets the end of the stream, and there is no frame before it. -/
def MeetsEnd (b : FrameBuffer) (i : Inbox) : Prop :=
  i.endsNext ∧
    match b.framing with
    | .byRead => i.ahead = []
    | .byLine => b.owed (contents i.ahead) = []

/-- On a stream that is cut by line, the end is met if no line is owed before it. -/
theorem nextLine_eq_ended_iff (b : FrameBuffer) (i : Inbox) :
    (nextLine i.ending i.arrivals b).1 = .ended ↔ i.endsNext ∧ b.owed (contents i.ahead) = [] := by
  rcases hline : nextLine i.ending i.arrivals b with ⟨delivery, after, rest⟩
  obtain ⟨read, left, q, hsplit, hread, howed, -, hstops⟩ := nextLine_cases hline
  -- what is read without a frame lies ahead of the first read that brings no bytes
  have hahead : i.ahead = read ++ left.takeWhile (·.content ≠ []) := by
    unfold Inbox.ahead
    rw [hsplit, List.takeWhile_append_of_pos (by simpa using hread)]
  have hbehind : i.arrivals.dropWhile (·.content ≠ []) = left.dropWhile (·.content ≠ []) := by
    rw [hsplit, List.dropWhile_append_of_pos (by simpa using hread)]
  unfold Inbox.endsNext
  rw [hahead, hbehind, contents_append, howed]
  cases hstops with
  | frame hafter hfirst => simp [hfirst]
  | waiting hquiet hending => simp [hending]
  | failed hquiet fault rest => simp [Arrival.content]
  | ended hquiet rest => simpa [Arrival.content, contents] using takeLast_eq_ended_iff hquiet
  | closed hquiet hending => simpa [hending, contents] using takeLast_eq_ended_iff hquiet

/-- A request comes to the end of the stream if a read meets it and no frame is left before it. -/
theorem next_eq_ended_iff (b : FrameBuffer) (i : Inbox) : (b.next i).1 = .ended ↔ b.MeetsEnd i := by
  unfold next MeetsEnd
  cases b.framing with
  | byLine => exact nextLine_eq_ended_iff b i
  | byRead =>
    change (nextRead i.ending i.arrivals).1 = .ended ↔ _
    unfold nextRead Inbox.endsNext Inbox.ahead
    rcases harrivals : i.arrivals with _ | ⟨(_ | ⟨x, xs⟩) | fault, rest⟩
    · cases hending : i.ending <;> simp
    all_goals simp [Arrival.content]

end FrameBuffer

/-! ## Lines that have all come in -/

/-- What a request comes to when everything has been read and nothing is left over. -/
def Ending.delivery : Ending → Delivery
  | .closed => .ended
  | .silent => .waiting

namespace FrameBuffer

/-- Nothing is owed by a buffer from which no frame can be made, if its last line is complete. -/
theorem owed_eq_nil_of_quiet {q : FrameBuffer} (h : q.Quiet) {size : Nat} {frames : List Frame}
    (howed : ∀ more, q.owed more = frames ++ referenceFrames size more) : frames = [] := by
  -- one more line feed makes a frame of its own, and there is room for one frame only
  have hfeed : referenceFrames size [lineFeed] = [lineFrame size []] :=
    referenceFrames_line List.not_mem_nil size []
  have hlength := length_owed_feed h.no_line
  rw [howed, hfeed, List.length_append, List.length_singleton] at hlength
  exact List.length_eq_zero_iff.1 (by omega)

/-- Bytes that are complete lines are given as frames, before the stream is at its end or waits. -/
theorem drain_of_complete {b : FrameBuffer} {i : Inbox} (hframing : b.framing = .byLine)
    (harrivals : ∀ a ∈ i.arrivals, a.content ≠ []) {frames : List Frame}
    (howed : ∀ more, b.owed (contents i.arrivals ++ more) = frames ++ referenceFrames b.size more) :
    b.drain i = frames.map .frame ++ [i.ending.delivery] := by
  rcases hline : nextLine i.ending i.arrivals b with ⟨delivery, after, rest⟩
  have hnext : b.next i = (delivery, after, { i with arrivals := rest }) := by
    rw [next_byLine hframing, hline]
  obtain ⟨read, left, q, hsplit, -, hread, halike, hstops⟩ := nextLine_cases hline
  rw [hsplit] at harrivals howed
  -- what is read without a frame changes nothing about what is owed
  have howed' (more : List UInt8) :
      q.owed (contents left ++ more) = frames ++ referenceFrames b.size more := by
    rw [← hread, ← List.append_assoc, ← contents_append]
    exact howed more
  have hquiet (h : q.Quiet) (hleft : left = []) : frames = [] := by
    subst hleft
    exact owed_eq_nil_of_quiet h howed'
  have hbytes (a : Arrival) (ha : a ∈ left) : a.content ≠ [] :=
    harrivals a (List.mem_append_right read ha)
  cases hstops with
  | @frame f after rest hafter hfirst =>
    have hstep : b.Alike after := halike.trans hafter
    obtain rfl : frames = f :: after.owed (contents rest) := by
      have hlist := howed' []
      rw [hfirst, referenceFrames_nil, List.append_nil, List.append_nil] at hlist
      exact hlist.symm
    have hothers (more : List UInt8) : after.owed (contents rest ++ more) =
        after.owed (contents rest) ++ referenceFrames after.size more := by
      have hmore := howed' more
      rw [hfirst] at hmore
      rw [hstep.size]
      exact (List.cons.inj hmore).2
    have hrest := drain_of_complete (b := after) (i := { i with arrivals := rest })
      (hstep.framing.trans hframing) hbytes hothers
    rw [drain_of_frame hnext, hrest]
    rfl
  | waiting h hending =>
    rw [drain_of_stop hnext (by simp), hquiet h rfl, hending]
    rfl
  | failed h fault rest => exact absurd rfl (hbytes _ List.mem_cons_self)
  | ended h rest => exact absurd rfl (hbytes _ List.mem_cons_self)
  | closed h hending =>
    have hnone : q.owed [] = [] := by
      have hlist := howed' []
      rw [hquiet h rfl] at hlist
      exact hlist
    have hended : q.takeLast.1 = .ended := (takeLast_eq_ended_iff h).2 hnone
    rw [hended] at hnext
    rw [drain_of_stop hnext (by simp), hquiet h rfl, hending]
    rfl
termination_by b.backlog i
decreasing_by exact backlog_next hnext

end FrameBuffer

end TransferDesk
