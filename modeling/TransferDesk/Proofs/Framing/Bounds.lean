import TransferDesk.Proofs.Framing.Polling
/-!
# How much a client can make a buffer hold

A buffer that cuts by line reads on only if no frame can be made of what is pending, and then there
is little more than one line in it (`length_pending_of_quiet`). One read adds at most as much again,
so that what is pending is bounded whatever arrives (`length_pending_nextLine`).

What a frame is made of are the lines of the stream and nothing else: what a buffer owes is always
the end of the frames of the stream as far as it is read (`Sourced`), although it can throw lines
away in part.

`FrameBuffer.pending_bounded` puts this together, for any number of requests on any stream.
-/

namespace TransferDesk

/-! ## The lines of a stream -/

/-- The bytes that arrive before the next end of the stream. -/
def upcoming : List Arrival → List UInt8
  | [] => []
  | .failure _ :: arrivals => upcoming arrivals
  | .bytes [] :: _ => []
  | .bytes bytes :: arrivals => bytes ++ upcoming arrivals

theorem upcoming_append {read : List Arrival} (h : ∀ a ∈ read, a.content ≠ [])
    (more : List Arrival) :
    upcoming (read ++ more) = contents read ++ upcoming more := by
  induction read with
  | nil => rfl
  | cons a read ih =>
    have hread : ∀ a ∈ read, a.content ≠ [] := fun x hx => h x (List.mem_cons_of_mem a hx)
    have ha : a.content ≠ [] := h a List.mem_cons_self
    rcases a with (_ | ⟨x, xs⟩) | fault
    · exact absurd rfl ha
    · show x :: xs ++ upcoming (read ++ more) = (x :: xs ++ contents read) ++ upcoming more
      rw [ih hread, List.append_assoc]
    · exact absurd rfl ha

/-- The first segment goes on to the next end of the stream. -/
theorem exists_segments (current : List UInt8) (arrivals : List Arrival) :
    ∃ others, segments current arrivals = (current ++ upcoming arrivals) :: others := by
  induction arrivals generalizing current with
  | nil => exact ⟨[], by rw [segments, upcoming, List.append_nil]⟩
  | cons a arrivals ih =>
    rcases a with (_ | ⟨x, xs⟩) | fault
    · exact ⟨_, by rw [segments, upcoming, List.append_nil]⟩
    · obtain ⟨others, hothers⟩ := ih (current ++ x :: xs)
      refine ⟨others, ?_⟩
      show segments (current ++ x :: xs) arrivals =
        (current ++ (x :: xs ++ upcoming arrivals)) :: others
      rw [hothers, List.append_assoc]
    · exact ih current

/-- The lines of a stream with their line endings. No line goes on behind an end of the stream. -/
def streamLines (arrivals : List Arrival) : List (List UInt8) :=
  (segments [] arrivals).flatMap linePieces

/-- The frames of the lines of a stream. -/
def streamFrames (size : Nat) (arrivals : List Arrival) : List Frame :=
  (segments [] arrivals).flatMap (referenceFrames size)

theorem mem_streamFrames_iff {size : Nat} {arrivals : List Arrival} {f : Frame} :
    f ∈ streamFrames size arrivals ↔ ∃ line ∈ streamLines arrivals, pieceFrame size line = f := by
  unfold streamFrames streamLines referenceFrames
  rw [← List.map_flatMap, List.mem_map]

theorem referenceFrames_afterLine (size : Nat) (bytes : List UInt8) :
    referenceFrames size (afterLine bytes) <:+ referenceFrames size bytes := by
  by_cases h : lineFeed ∈ bytes
  · obtain ⟨line, rest, rfl, hline⟩ := exists_line h
    rw [afterLine_line hline, referenceFrames_line hline]
    exact List.suffix_cons _ _
  · rw [afterLine_of_not_mem h]
    exact List.nil_suffix

/-- The bytes of a line that is not too long: content of at most `size` bytes and a line ending,
which is not all there if the stream ends before it. -/
structure LineOf (size : Nat) (line content lineEnding : List UInt8) : Prop where
  split : line = content ++ lineEnding
  length : content.length ≤ size
  ending : lineEnding ∈ [[], [carriageReturn], [lineFeed], [carriageReturn, lineFeed]]

theorem exists_lineOf {size : Nat} {line : List UInt8} {text : List Char}
    (h : pieceFrame size line = .line text) :
    text = decodeLine line ∧ ∃ content lineEnding, LineOf size line content lineEnding := by
  unfold pieceFrame at h
  split at h
  · cases h
  · rename_i hfits
    cases h
    refine ⟨rfl, ?_⟩
    unfold contentLength at hfits
    -- a line feed in last place is not content, and no more is a carriage return in front of it
    have hfeed : ∃ feed, (feed = [] ∨ feed = [lineFeed]) ∧ line = pieceContent line ++ feed := by
      by_cases hlast : line.getLast? = some lineFeed
      · obtain ⟨content, rfl⟩ := List.getLast?_eq_some_iff.1 hlast
        exact ⟨[lineFeed], Or.inr rfl, by rw [pieceContent_line]⟩
      · refine ⟨[], Or.inl rfl, ?_⟩
        unfold pieceContent
        rw [if_neg hlast, List.append_nil]
    obtain ⟨feed, hcases, hline⟩ := hfeed
    generalize pieceContent line = body at hfits hline
    by_cases hreturn : body.getLast? = some carriageReturn
    · obtain ⟨content, rfl⟩ := List.getLast?_eq_some_iff.1 hreturn
      rw [if_pos hreturn, List.length_append, List.length_singleton] at hfits
      refine ⟨content, carriageReturn :: feed, ?_, by omega, ?_⟩
      · rw [hline, List.append_assoc]
        rfl
      · rcases hcases with rfl | rfl <;> simp
    · rw [if_neg hreturn] at hfits
      refine ⟨body, feed, hline, Nat.not_lt.1 hfits, ?_⟩
      rcases hcases with rfl | rfl <;> simp

namespace FrameBuffer

/-! ## The reads of a request -/

/-- A request that has read `read` and can make no frame of it reads on, and `q` is the buffer then:
on a stream that has no more for now, it would be left waiting with it. -/
def ReadsOn (b : FrameBuffer) (read : List Arrival) (q : FrameBuffer) : Prop :=
  b.next ⟨read, .silent⟩ = (.waiting, q, ⟨[], .silent⟩)

theorem readsOn_iff {b q : FrameBuffer} (hframing : b.framing = .byLine) {read : List Arrival} :
    b.ReadsOn read q ↔ nextLine .silent read b = (.waiting, q, []) := by
  unfold ReadsOn
  rw [next_byLine hframing]
  rcases nextLine .silent read b with ⟨delivery, after, rest⟩
  simp

theorem ReadsOn.quiet {b q : FrameBuffer} (hframing : b.framing = .byLine) {read : List Arrival}
    (h : b.ReadsOn read q) : q.Quiet ∧ q.size = b.size := by
  obtain ⟨bytes, left, last, -, -, -, halike, hstops⟩ := nextLine_cases ((readsOn_iff hframing).1 h)
  generalize hdelivery : Delivery.waiting = delivery at hstops
  cases hstops with
  | frame | failed => cases hdelivery
  | waiting hquiet => exact ⟨hquiet, halike.size⟩
  | ended => exact absurd hdelivery.symm (takeLast_ne_waiting last)
  | closed => exact absurd hdelivery.symm (takeLast_ne_waiting last)

/-- A request reads on after each of the arrivals that it takes but the last. -/
theorem exists_nextLine_waiting {ending : Ending} {taken rest read : List Arrival}
    {b after : FrameBuffer}
    {delivery : Delivery} (h : nextLine ending (taken ++ rest) b = (delivery, after, rest))
    (hpart : read <+: taken) (hne : read ≠ taken) :
    ∃ q, nextLine .silent read b = (.waiting, q, []) := by
  induction taken generalizing b read with
  | nil => exact absurd (List.prefix_nil.1 hpart) hne
  | cons a taken ih =>
    rw [List.cons_append, nextLine] at h
    rcases htake : b.takeFrame with ⟨_ | f, q⟩
    · rw [htake] at h
      rcases read with _ | ⟨a', read⟩
      · exact ⟨q, by rw [nextLine, htake]⟩
      · obtain ⟨rfl, hbehind⟩ := List.cons_prefix_cons.1 hpart
        have hless : read ≠ taken := fun he => hne (congrArg (a' :: ·) he)
        -- a failure and the end of the stream are the last that is taken
        have hlast (hrest : taken ++ rest = rest) : False := by
          obtain rfl : taken = [] := List.append_left_eq_self.1 hrest
          exact hless (List.prefix_nil.1 hbehind)
        rw [nextLine, htake]
        rcases a' with (_ | ⟨x, xs⟩) | fault
        · exact absurd (congrArg (fun r => r.2.2) h) hlast
        · exact ih h hbehind hless
        · exact absurd (congrArg (fun r => r.2.2) h) hlast
    · rw [htake] at h
      have hrest := congrArg (fun r => r.2.2.length) h
      simp only [List.length_cons, List.length_append] at hrest
      omega

/-- A request does not read on behind what it takes. -/
theorem prefix_of_nextLine_waiting {ending : Ending} {arrivals taken rest read : List Arrival}
    {b q after : FrameBuffer} {delivery : Delivery}
    (h : nextLine ending arrivals b = (delivery, after, rest))
    (harrivals : arrivals = taken ++ rest)
    (hread : nextLine .silent read b = (.waiting, q, [])) (hpart : read <+: arrivals) :
    read <+: taken := by
  obtain ⟨more, rfl⟩ := hpart
  rw [nextLine_of_waiting hread] at h
  obtain ⟨later, rfl, -⟩ := reads_of_nextLine h
  rw [← List.append_assoc] at harrivals
  rw [← List.append_cancel_right harrivals]
  exact List.prefix_append read later

/-! ## What is pending -/

/-- If no frame can be made of it, there are no more pending bytes than a line may have, or one
more, which can be part of its line ending. -/
theorem length_pending_of_quiet {q : FrameBuffer} (h : q.Quiet) :
    q.pending.length ≤ q.size ∨
      q.pending.length = q.size + 1 ∧ q.pending.getLast? = some carriageReturn := by
  have hfits := h.fits
  unfold contentLength at hfits
  split at hfits
  · rename_i hreturn
    rcases Nat.lt_or_ge q.size q.pending.length with hmore | hless
    · exact Or.inr ⟨by omega, hreturn⟩
    · exact Or.inl hless
  · exact Or.inl hfits

/-- A request leaves no more pending than fits in twice, if no read brings more than fits in. -/
theorem length_pending_nextLine {ending : Ending} {arrivals rest : List Arrival}
    {b after : FrameBuffer}
    {delivery : Delivery} (h : nextLine ending arrivals b = (delivery, after, rest))
    (harrivals : ∀ a ∈ arrivals, a.content.length ≤ b.size)
    (hpending : b.pending.length ≤ 2 * b.size + 1) : after.pending.length ≤ 2 * b.size + 1 := by
  induction arrivals generalizing b with
  | nil =>
    rw [nextLine] at h
    have hless := (length_pending_takeFrame b).1
    rcases htake : b.takeFrame with ⟨_ | f, q⟩ <;> rw [htake] at h hless
    · cases ending with
      | closed =>
        cases h
        exact Nat.zero_le _
      | silent =>
        cases h
        exact Nat.le_trans hless hpending
    · cases h
      exact Nat.le_trans hless hpending
  | cons a arrivals ih =>
    rw [nextLine] at h
    have hless := (length_pending_takeFrame b).1
    rcases htake : b.takeFrame with ⟨_ | f, q⟩ <;> rw [htake] at h hless
    · rcases a with (_ | ⟨x, xs⟩) | fault
      · cases h
        exact Nat.zero_le _
      · -- no frame was made of what is pending, so that the read comes on top of little
        have hsize : q.size = b.size := (alike_of_takeFrame htake).size
        have hquiet := length_pending_of_quiet ((owed_takeFrame htake).2 rfl)
        have hread : (x :: xs).length ≤ b.size := harrivals (.bytes (x :: xs)) List.mem_cons_self
        rw [← hsize]
        apply ih h
        · intro a ha
          show a.content.length ≤ q.size
          rw [hsize]
          exact harrivals a (List.mem_cons_of_mem _ ha)
        · show (q.pending ++ x :: xs).length ≤ 2 * q.size + 1
          rw [List.length_append]
          omega
      · cases h
        exact Nat.le_trans hless hpending
    · cases h
      exact Nat.le_trans hless hpending

/-! ## Where frames come from -/

/-- What a buffer owes up to the next end of the stream is the end of what the segment up to there
is cut into. -/
def Sourced (all : List Arrival) (b : FrameBuffer) (rest : List Arrival) : Prop :=
  ∃ done current, segments [] all = done ++ segments current rest ∧
    b.owed (upcoming rest) <:+ referenceFrames b.size (current ++ upcoming rest)

namespace Sourced

variable {all rest : List Arrival} {b : FrameBuffer}

/-- What is owed is a frame of a line of the stream. -/
theorem mem_streamFrames (h : Sourced all b rest) {f : Frame} (hf : f ∈ b.owed (upcoming rest)) :
    f ∈ streamFrames b.size all := by
  obtain ⟨done, current, hall, howed⟩ := h
  obtain ⟨others, hsegment⟩ := exists_segments current rest
  unfold streamFrames
  rw [hall, hsegment, List.mem_flatMap]
  exact ⟨current ++ upcoming rest, by simp, howed.subset hf⟩

/-- Bytes that are read without a frame belong to the segment. -/
theorem more {read left : List Arrival} {q : FrameBuffer} (h : Sourced all b (read ++ left))
    (hread : ∀ a ∈ read, a.content ≠ [])
    (howed : ∀ more, b.owed (contents read ++ more) = q.owed more) (halike : b.Alike q) :
    Sourced all q left := by
  obtain ⟨done, current, hall, hbefore⟩ := h
  refine ⟨done, current ++ contents read, ?_, ?_⟩
  · rw [hall, segments_append hread]
  · rw [upcoming_append hread, howed, ← List.append_assoc] at hbefore
    rw [halike.size]
    exact hbefore

/-- The first frame that is owed can be taken. -/
theorem frame {f : Frame} {after : FrameBuffer} (h : Sourced all b rest) (halike : b.Alike after)
    (howed : ∀ more, b.owed more = f :: after.owed more) : Sourced all after rest := by
  obtain ⟨done, current, hall, hbefore⟩ := h
  refine ⟨done, current, hall, ?_⟩
  rw [howed] at hbefore
  rw [halike.size]
  exact (List.suffix_cons f _).trans hbefore

/-- A failed read belongs to no segment. -/
theorem failed {fault : TransportFault} (h : Sourced all b (.failure fault :: rest)) :
    Sourced all b rest :=
  h

/-- A new segment begins behind an end of the stream. -/
theorem ended (h : Sourced all b (.bytes [] :: rest)) : Sourced all b.takeLast.2 rest := by
  obtain ⟨done, current, hall, -⟩ := h
  refine ⟨done ++ [current], [], ?_, ?_⟩
  · rw [hall, segments, List.append_assoc]
    rfl
  · show referenceFrames b.size
        (if b.discarding then afterLine ([] ++ upcoming rest) else [] ++ upcoming rest) <:+
      referenceFrames b.size ([] ++ upcoming rest)
    split
    · exact referenceFrames_afterLine b.size _
    · exact List.suffix_rfl

/-- Nothing is owed behind the end of a closed stream. -/
theorem closed (h : Sourced all b []) (hquiet : b.Quiet) : Sourced all b.takeLast.2 [] := by
  obtain ⟨done, current, hall, -⟩ := h
  refine ⟨done, current, hall, ?_⟩
  rw [upcoming, (owed_takeLast hquiet).2]
  exact List.nil_suffix

/-- What is given at the end of the stream is owed. -/
theorem mem_owed_of_takeLast {q : FrameBuffer} (hquiet : q.Quiet) {f : Frame}
    (h : q.takeLast.1 = .frame f) : f ∈ q.owed [] := by
  rcases (owed_takeLast hquiet).1 with ⟨hended, -⟩ | ⟨last, hlast, howed⟩
  · rw [hended] at h
    cases h
  · rw [hlast] at h
    cases h
    rw [howed]
    exact List.mem_singleton_self f

/-- A request gives a frame of a line of the stream, and the rest is still the end of what is to
come. -/
theorem next {ending : Ending} {arrivals left : List Arrival} {after : FrameBuffer}
    {delivery : Delivery}
    (h : Sourced all b arrivals) (hnext : nextLine ending arrivals b = (delivery, after, left)) :
    Sourced all after left ∧ ∀ f, delivery = .frame f → f ∈ streamFrames b.size all := by
  obtain ⟨read, unread, q, rfl, hread, howed, halike, hstops⟩ := nextLine_cases hnext
  have hq : Sourced all q unread := h.more hread howed halike
  rw [← halike.size]
  cases hstops with
  | frame hafter hfirst =>
    refine ⟨hq.frame hafter hfirst, ?_⟩
    intro f hf
    cases hf
    apply hq.mem_streamFrames
    rw [hfirst]
    exact List.mem_cons_self
  | waiting => exact ⟨hq, by simp⟩
  | failed => exact ⟨hq.failed, by simp⟩
  | ended hquiet left =>
    exact ⟨hq.ended, fun f hf => hq.mem_streamFrames (mem_owed_of_takeLast hquiet hf)⟩
  | closed hquiet =>
    exact ⟨hq.closed hquiet, fun f hf => hq.mem_streamFrames (mem_owed_of_takeLast hquiet hf)⟩

end Sourced

/-! ## Any number of requests -/

/-- The buffer and what is left of the stream after a number of requests. -/
def afterAsking : Nat → FrameBuffer → Inbox → FrameBuffer × Inbox
  | 0, b, i => (b, i)
  | times + 1, b, i => afterAsking times (b.next i).2.1 (b.next i).2.2

theorem ask_succ (times : Nat) (b : FrameBuffer) (i : Inbox) :
    b.ask (times + 1) i =
      b.ask times i ++ [((b.afterAsking times i).1.next (b.afterAsking times i).2).1] := by
  induction times generalizing b i with
  | zero => rfl
  | succ times ih =>
    show (b.next i).1 :: (b.next i).2.1.ask (times + 1) (b.next i).2.2 = _
    rw [ih]
    rfl

/-- What holds between two requests on a stream of which `all` has arrived: what is pending is
bounded, and so is what a read brings. -/
structure Within (size : Nat) (all : List Arrival) (b : FrameBuffer) (i : Inbox) : Prop where
  framing : b.framing = .byLine
  same_size : b.size = size
  pending : b.pending.length ≤ 2 * size + 1
  arrivals : ∀ a ∈ i.arrivals, a.content.length ≤ size
  sourced : Sourced all b i.arrivals

/-- What a request may do with a stream of which `all` has arrived. -/
structure Bounded (size : Nat) (all : List Arrival) (b : FrameBuffer) (i : Inbox) : Prop where
  pending : b.pending.length ≤ 2 * size + 1
  /-- Before a read there is no line feed pending and at most `size` bytes, not counting a carriage
  return. -/
  pending_before_read : ∀ read left q, i.arrivals = read ++ left → b.ReadsOn read q →
    lineFeed ∉ q.pending ∧
    (q.pending.length ≤ size ∨
      q.pending.length = size + 1 ∧ q.pending.getLast? = some carriageReturn) ∧
    ∀ bytes later, left = .bytes bytes :: later → (q.pending ++ bytes).length ≤ 2 * size + 1
  /-- The request reads on after each of the arrivals that it takes but the last, and nowhere behind
  them. Only on a stream that is still open can it be left waiting. -/
  ends : ∃ taken, i.arrivals = taken ++ (b.next i).2.2.arrivals ∧
    (∀ read, read <+: taken → read ≠ taken → ∃ q, b.ReadsOn read q) ∧
    (∀ read q, read <+: i.arrivals → b.ReadsOn read q → read <+: taken) ∧
    (i.ending = .closed → (b.next i).1 ≠ .waiting)
  /-- The text of a line is that of a whole line of the stream, of at most `size` bytes and a line
  ending. -/
  line : ∀ text, (b.next i).1 = .frame (.line text) →
    ∃ line ∈ streamLines all, text = decodeLine line ∧
      ∃ content lineEnding, LineOf size line content lineEnding

namespace Within

variable {size : Nat} {all : List Arrival} {b : FrameBuffer} {i : Inbox}

theorem start (hsize : 1 ≤ size) (chunks : List Arrival) (ending : Ending) :
    Within size (chunks.flatMap (·.cut size)) (create .byLine size)
      (Inbox.ofChunks size chunks ending) where
  framing := rfl
  same_size := Nat.max_eq_left hsize
  pending := Nat.zero_le _
  arrivals := by
    intro a ha
    obtain ⟨chunk, -, ha⟩ := List.mem_flatMap.1 ha
    rcases chunk with bytes | fault
    · obtain ⟨piece, hpiece, rfl⟩ := List.mem_map.1 ha
      exact length_le_of_mem_pieces hsize hpiece
    · obtain rfl := List.mem_singleton.1 ha
      exact Nat.zero_le size
  sourced := ⟨[], [], rfl, List.suffix_rfl⟩

theorem next (h : Within size all b i) : Within size all (b.next i).2.1 (b.next i).2.2 := by
  rw [next_byLine h.framing]
  rcases hline : nextLine i.ending i.arrivals b with ⟨delivery, after, rest⟩
  have halike := alike_of_nextLine hline
  obtain ⟨read, hread, -⟩ := reads_of_nextLine hline
  refine ⟨halike.framing.trans h.framing, halike.size.trans h.same_size, ?_, ?_,
    (h.sourced.next hline).1⟩
  · show after.pending.length ≤ 2 * size + 1
    rw [← h.same_size]
    apply length_pending_nextLine hline
    · rw [h.same_size]
      exact h.arrivals
    · rw [h.same_size]
      exact h.pending
  · intro a ha
    apply h.arrivals
    rw [hread]
    exact List.mem_append_right read ha

theorem afterAsking (h : Within size all b i) (times : Nat) :
    Within size all (b.afterAsking times i).1 (b.afterAsking times i).2 := by
  induction times generalizing b i with
  | zero => exact h
  | succ times ih => exact ih h.next

theorem bounded (h : Within size all b i) : Bounded size all b i where
  pending := h.pending
  pending_before_read read left q harrivals hreads := by
    obtain ⟨hquiet, hsize⟩ := hreads.quiet h.framing
    have hlength := length_pending_of_quiet hquiet
    rw [hsize, h.same_size] at hlength
    refine ⟨hquiet.no_line, hlength, ?_⟩
    rintro bytes later rfl
    have hbytes := h.arrivals (.bytes bytes) (by rw [harrivals]; simp)
    change bytes.length ≤ size at hbytes
    rw [List.length_append]
    omega
  ends := by
    rw [next_byLine h.framing]
    rcases hline : nextLine i.ending i.arrivals b with ⟨delivery, after, rest⟩
    obtain ⟨taken, htaken, -⟩ := reads_of_nextLine hline
    refine ⟨taken, htaken, ?_, ?_, ?_⟩
    · intro read hpart hne
      rw [htaken] at hline
      obtain ⟨q, hq⟩ := exists_nextLine_waiting hline hpart hne
      exact ⟨q, (readsOn_iff h.framing).2 hq⟩
    · intro read q hpart hreads
      exact prefix_of_nextLine_waiting hline htaken ((readsOn_iff h.framing).1 hreads) hpart
    · intro hclosed hwaiting
      obtain rfl : delivery = .waiting := hwaiting
      rw [(nextLine_eq_waiting hline).1] at hclosed
      cases hclosed
  line text htext := by
    rw [next_byLine h.framing] at htext
    obtain ⟨line, hmem, hframe⟩ := mem_streamFrames_iff.1 ((h.sourced.next rfl).2 _ htext)
    rw [h.same_size] at hframe
    exact ⟨line, hmem, exists_lineOf hframe⟩

end Within

/-- Whatever a client sends, a buffer that cuts by line holds little of it. Take any arrivals,
failures and ends of the stream among them, read at most `size` bytes at a time, on a stream that is
closed then or waits. After any number of requests, what is pending is bounded, and for the next
request `Bounded` says

* what is pending when it reads: no line feed, and not more than a line may have;
* that it reads a part of the arrivals and then comes to an end;
* that a line it gives is one of the stream and not too long. -/
theorem pending_bounded {size : Nat} (hsize : 1 ≤ size) (chunks : List Arrival) (ending : Ending)
    (times : Nat) :
    let start := create .byLine size
    let stream := Inbox.ofChunks size chunks ending
    let (b, rest) := start.afterAsking times stream
    start.ask (times + 1) stream = start.ask times stream ++ [(b.next rest).1] ∧
      Bounded size stream.arrivals b rest := by
  refine ⟨ask_succ times _ _, ?_⟩
  exact ((Within.start hsize chunks ending).afterAsking times).bounded

/-- A line that just fits, cut inside its line ending, and one that is too long, with a failure
between. -/
def crampedLines : List Arrival :=
  [.bytes [97, 98], .bytes [13], .bytes [10, 99], .failure .timedOut, .bytes [100, 101, 10]]

/-- Before the third read as much is pending as can be, and the read brings as much as it can. -/
theorem crampedLines_bounded :
    1 ≤ 2 ∧
    (create .byLine 2).ask 4 (Inbox.ofChunks 2 crampedLines .closed) =
      [.frame (.line ['a', 'b']), .failed .timedOut, .frame .oversized, .ended] ∧
    (∃ q, (create .byLine 2).ReadsOn [.bytes [97, 98], .bytes [13]] q ∧ q.pending = [97, 98, 13] ∧
      lineFeed ∉ q.pending ∧ (q.pending ++ [10, 99]).length ≤ 2 * 2 + 1) ∧
    (∃ line ∈ streamLines (Inbox.ofChunks 2 crampedLines .closed).arrivals,
      ['a', 'b'] = decodeLine line ∧ ∃ content lineEnding, LineOf 2 line content lineEnding) ∧
    ((create .byLine 2).afterAsking 2 (Inbox.ofChunks 2 crampedLines .closed)).1.pending.length ≤
      2 * 2 + 1 := by
  obtain ⟨-, hfirst⟩ := pending_bounded (show 1 ≤ 2 by decide) crampedLines .closed 0
  obtain ⟨-, hthird⟩ := pending_bounded (show 1 ≤ 2 by decide) crampedLines .closed 2
  have hreads : (create .byLine 2).ReadsOn [.bytes [97, 98], .bytes [13]]
      { create .byLine 2 with pending := [97, 98, 13] } := by
    unfold ReadsOn
    decide
  have hcut : (Inbox.ofChunks 2 crampedLines .closed).arrivals = [.bytes [97, 98], .bytes [13]] ++
      [.bytes [10, 99], .failure .timedOut, .bytes [100, 101], .bytes [10]] := by
    decide +kernel
  obtain ⟨hfeed, -, hread⟩ := hfirst.pending_before_read _ _ _ hcut hreads
  refine ⟨by decide, by decide +kernel, ⟨_, hreads, rfl, hfeed, hread _ _ rfl⟩, ?_, hthird.pending⟩
  apply hfirst.line
  decide +kernel

end FrameBuffer

end TransferDesk
