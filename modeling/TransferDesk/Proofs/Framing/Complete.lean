import TransferDesk.Proofs.Framing.Delivery
/-!
# Complete frames

What a list of reads is known to be cut into before any more is read: every read that is not empty
if it is cut by read, and every line that has come to its line feed if it is cut by line
(`completeFrames`). A line does not go on behind an end of the stream.

* `Taken` relates the frames that have been taken to the reads they come from, and `Taken.next` says
  that a request for a frame keeps this up.
* `Taken.complete`: the complete frames of all that has been read have been taken, but for those
  that are still in the buffer (`FrameBuffer.buffered`). `Taken.requests_iff` says when that is all
  of them.
-/

namespace TransferDesk

/-! ## Lines that have come to their end -/

/-- The frames of the lines that end with a line feed. -/
def completeLines (size : Nat) (bytes : List UInt8) : List Frame :=
  ((linePieces bytes).filter (·.getLast? = some lineFeed)).map (pieceFrame size)

theorem completeLines_eq_nil {size : Nat} {bytes : List UInt8}
    (h : referenceFrames size bytes = []) :
    completeLines size bytes = [] := by
  unfold completeLines
  rw [List.map_eq_nil_iff.1 h]
  rfl

theorem completeLines_line {line : List UInt8} (h : lineFeed ∉ line) (size : Nat)
    (rest : List UInt8) :
    completeLines size (line ++ lineFeed :: rest) =
      lineFrame size line :: completeLines size rest := by
  unfold completeLines
  rw [linePieces_line h, List.filter_cons_of_pos, List.map_cons, pieceFrame_line]
  simp

theorem completeLines_of_not_mem {bytes : List UInt8} (h : lineFeed ∉ bytes) (size : Nat) :
    completeLines size bytes = [] := by
  unfold completeLines
  by_cases hne : bytes = []
  · rw [hne]
    rfl
  · have hlast : ¬ bytes.getLast? = some lineFeed := fun hl => h (List.mem_of_getLast? hl)
    rw [linePieces_of_not_mem h hne, List.filter_cons_of_neg (by simpa using hlast)]
    rfl

/-- With one more line feed, there is one more line. -/
theorem referenceFrames_feed (size : Nat) (bytes : List UInt8) :
    ∃ frame, referenceFrames size (bytes ++ [lineFeed]) = completeLines size bytes ++ [frame] := by
  by_cases h : lineFeed ∈ bytes
  · -- the first line is complete, and what is behind it is shorter
    obtain ⟨line, rest, rfl, hline⟩ := exists_line h
    obtain ⟨frame, hframe⟩ := referenceFrames_feed size rest
    refine ⟨frame, ?_⟩
    rw [List.append_assoc, List.cons_append, referenceFrames_line hline, hframe,
      completeLines_line hline]
    rfl
  · refine ⟨lineFrame size bytes, ?_⟩
    rw [referenceFrames_line h, completeLines_of_not_mem h]
    rfl
termination_by bytes.length

/-- What has been read, cut at every end of the stream that was met. The first piece begins with
bytes that were read before. -/
def segments (before : List UInt8) : List Arrival → List (List UInt8)
  | [] => [before]
  | .failure _ :: reads => segments before reads
  | .bytes [] :: reads => before :: segments [] reads
  | .bytes bytes :: reads => segments (before ++ bytes) reads

theorem segments_append {reads : List Arrival} (h : ∀ a ∈ reads, a.content ≠ [])
    (before : List UInt8) (more : List Arrival) :
    segments before (reads ++ more) = segments (before ++ contents reads) more := by
  induction reads generalizing before with
  | nil => exact congrArg (segments · more) (List.append_nil before).symm
  | cons read reads ih =>
    have hreads : ∀ a ∈ reads, a.content ≠ [] := fun a ha => h a (List.mem_cons_of_mem read ha)
    have hread : read.content ≠ [] := h read List.mem_cons_self
    cases read with
    | failure fault => exact absurd rfl hread
    | bytes bytes =>
      cases bytes with
      | nil => exact absurd rfl hread
      | cons b bs =>
        change segments (before ++ b :: bs) (reads ++ more) =
          segments (before ++ (b :: bs ++ contents reads)) more
        rw [ih hreads, List.append_assoc]

/-- Unless the stream comes to its end, everything is one piece. -/
theorem segments_of_ne {reads : List Arrival} (h : ∀ a ∈ reads, a ≠ .bytes [])
    (before : List UInt8) :
    ∃ piece, segments before reads = [piece] := by
  induction reads generalizing before with
  | nil => exact ⟨before, rfl⟩
  | cons read reads ih =>
    have hreads : ∀ a ∈ reads, a ≠ .bytes [] := fun a ha => h a (List.mem_cons_of_mem read ha)
    cases read with
    | failure fault => exact ih hreads before
    | bytes bytes =>
      cases bytes with
      | nil => exact absurd rfl (h _ List.mem_cons_self)
      | cons b bs => exact ih hreads (before ++ b :: bs)

/-- The frames that reads have brought to their end. -/
def completeFrames (framing : Framing) (size : Nat) (reads : List Arrival) : List Frame :=
  match framing with
  | .byRead => (reads.filter (·.content ≠ [])).map fun read => .line (decodeLine read.content)
  | .byLine => (segments [] reads).flatMap (completeLines size)

/-- The frames that are to be answered: all but empty lines. -/
def requests (frames : List Frame) : List Frame :=
  frames.filter (· ≠ .line [])

theorem requests_append (xs ys : List Frame) : requests (xs ++ ys) = requests xs ++ requests ys :=
  List.filter_append xs ys

namespace FrameBuffer

/-! ## The frames of what has been read -/

/-- How frames have been taken from the lines of what has been read. Either the line feeds of the
current segment are accounted for, or the stream has come to its end and nothing is owed any
more. -/
inductive LinesTaken (size : Nat) (read rest : List Arrival) (frames : List Frame)
    (b : FrameBuffer) : Prop
  | reading (done : List (List UInt8)) (current : List UInt8) (earlier recent : List Frame)
    (hsize : b.size = size) (hframes : frames = earlier ++ recent)
    (hsegments : ∀ more, segments [] (read ++ more) = done ++ segments current more)
    (hdone : (done.flatMap (completeLines size)).Sublist earlier)
    (hfirst : done = [] → earlier = [])
    (howed : ∀ more, referenceFrames size (current ++ more) = recent ++ b.owed more)
  | finished (hrest : rest = []) (howed : b.owed [] = [])
    (hcomplete : (completeFrames .byLine size read).Sublist frames)

/-- The next line feed makes at most one frame if none is pending. -/
theorem length_owed_feed {q : FrameBuffer} (h : lineFeed ∉ q.pending) :
    (q.owed [lineFeed]).length ≤ 1 := by
  unfold owed
  split
  · rw [afterLine_line h]
    exact Nat.zero_le 1
  · rw [referenceFrames_line h]
    exact Nat.le_refl 1

/-- The bytes that are pending, without the rest of a line that is being dropped. -/
def kept (b : FrameBuffer) : List UInt8 :=
  if b.discarding then afterLine b.pending else b.pending

/-- The frames of the complete lines that are in a buffer. -/
def buffered (b : FrameBuffer) : List Frame :=
  match b.framing with
  | .byRead => []
  | .byLine => completeLines b.size b.kept

theorem completeLines_kept_of_not_mem {b : FrameBuffer} (h : lineFeed ∉ b.pending) :
    completeLines b.size b.kept = [] := by
  unfold kept
  split
  · rw [afterLine_of_not_mem h]
    rfl
  · exact completeLines_of_not_mem h b.size

theorem completeLines_kept_of_owed {b : FrameBuffer} (h : b.owed [] = []) :
    completeLines b.size b.kept = [] := by
  apply completeLines_eq_nil
  unfold owed at h
  rw [List.append_nil] at h
  exact h

theorem buffered_of_not_mem {b : FrameBuffer} (h : b.framing = .byLine → lineFeed ∉ b.pending) :
    b.buffered = [] := by
  unfold buffered
  split
  · rfl
  · rename_i hframing
    exact completeLines_kept_of_not_mem (h hframing)

/-- The next line feed makes one frame more of what is buffered, unless it only ends a line that is
being dropped. -/
theorem owed_feed (b : FrameBuffer) :
    (∃ frame, b.owed [lineFeed] = completeLines b.size b.kept ++ [frame]) ∨
      b.owed [lineFeed] = [] ∧ completeLines b.size b.kept = [] := by
  unfold owed kept
  split
  · by_cases h : lineFeed ∈ b.pending
    · obtain ⟨line, rest, hpending, hline⟩ := exists_line h
      rw [hpending, List.append_assoc, List.cons_append, afterLine_line hline, afterLine_line hline]
      exact Or.inl (referenceFrames_feed b.size rest)
    · rw [afterLine_line h, afterLine_of_not_mem h]
      exact Or.inr ⟨rfl, rfl⟩
  · exact Or.inl (referenceFrames_feed b.size b.pending)

/-- The complete lines of a segment have been taken or are buffered. If one is buffered, nothing
else has been taken from the segment. -/
theorem completeLines_taken {q : FrameBuffer} {size : Nat} {current : List UInt8}
    {recent : List Frame}
    (howed : ∀ more, referenceFrames size (current ++ more) = recent ++ q.owed more) :
    ∃ taken, completeLines size current = taken ++ completeLines q.size q.kept ∧
      taken <+: recent ∧ (completeLines q.size q.kept ≠ [] → taken = recent) := by
  obtain ⟨frame, hframe⟩ := referenceFrames_feed size current
  -- one more line feed completes one more line
  have hfeed := howed [lineFeed]
  rw [hframe] at hfeed
  rcases q.owed_feed with ⟨last, hlast⟩ | ⟨hnone, hempty⟩
  · rw [hlast, ← List.append_assoc] at hfeed
    exact ⟨recent, (List.append_inj' hfeed rfl).1, List.prefix_rfl, fun _ => rfl⟩
  · rw [hnone, List.append_nil] at hfeed
    refine ⟨completeLines size current, by rw [hempty, List.append_nil], ?_,
      fun h => absurd hempty h⟩
    rw [← hfeed]
    exact List.prefix_append _ _

/-- If no line feed is pending, the complete lines of a segment have been taken. -/
theorem completeLines_taken_of_not_mem {q : FrameBuffer} (h : lineFeed ∉ q.pending) {size : Nat}
    {current : List UInt8} {recent : List Frame}
    (howed : ∀ more, referenceFrames size (current ++ more) = recent ++ q.owed more) :
    completeLines size current <+: recent := by
  obtain ⟨taken, htaken, hprefix, -⟩ := completeLines_taken howed
  rw [completeLines_kept_of_not_mem h, List.append_nil] at htaken
  exact htaken ▸ hprefix

/-- A buffer that gave what was pending at the end of the stream begins anew. -/
theorem owed_of_takeLast {q : FrameBuffer} {f : Frame} (h : q.takeLast.1 = .frame f)
    (more : List UInt8) : q.takeLast.2.owed more = referenceFrames q.size more := by
  have hopen : ¬ q.discarding = true := by
    intro hd
    simp [takeLast, hd] at h
  change referenceFrames q.size (if q.discarding then afterLine ([] ++ more) else [] ++ more) = _
  rw [if_neg hopen]
  rfl

namespace LinesTaken

variable {size : Nat} {read rest : List Arrival} {frames : List Frame} {b : FrameBuffer}

/-- The lines that are complete have been taken or are buffered. -/
theorem complete (h : LinesTaken size read rest frames b) :
    ∃ taken, completeFrames .byLine size read = taken ++ completeLines b.size b.kept ∧
      taken.Sublist frames := by
  cases h with
  | reading done current earlier recent hsize hframes hsegments hdone hfirst howed =>
    obtain ⟨taken, htaken, hprefix, -⟩ := completeLines_taken howed
    have hread := hsegments []
    rw [List.append_nil] at hread
    refine ⟨done.flatMap (completeLines size) ++ taken, ?_, ?_⟩
    · unfold completeFrames
      rw [hread, List.flatMap_append, segments, List.flatMap_singleton, htaken, List.append_assoc]
    · rw [hframes]
      exact hdone.append hprefix.sublist
  | finished hrest howed hcomplete =>
    refine ⟨_, ?_, hcomplete⟩
    rw [completeLines_kept_of_owed howed, List.append_nil]

/-- Before the stream comes to its end, all that has been taken is complete lines as long as one is
buffered. -/
theorem eq_of_buffered (h : LinesTaken size read rest frames b) (hread : ∀ a ∈ read, a ≠ .bytes [])
    (hbuffered : completeLines b.size b.kept ≠ []) :
    completeFrames .byLine size read = frames ++ completeLines b.size b.kept := by
  cases h with
  | reading done current earlier recent hsize hframes hsegments hdone hfirst howed =>
    obtain ⟨taken, htaken, -, hall⟩ := completeLines_taken howed
    obtain ⟨piece, hpiece⟩ := segments_of_ne hread []
    have hsame := hsegments []
    rw [List.append_nil, hpiece, segments] at hsame
    -- there is one segment, so nothing was taken from an earlier one
    obtain rfl : done = [] := by
      have hlength := congrArg List.length hsame
      rw [List.length_append, List.length_singleton, List.length_singleton] at hlength
      exact List.length_eq_zero_iff.1 (by omega)
    rw [List.nil_append] at hsame
    unfold completeFrames
    rw [hpiece, hsame, List.flatMap_singleton, htaken, hall hbuffered, hframes, hfirst rfl,
      List.nil_append]
  | finished hrest howed hcomplete => exact absurd (completeLines_kept_of_owed howed) hbuffered

/-- The lines that are complete have been taken if no line feed is pending. -/
theorem complete_of_not_mem (h : LinesTaken size read rest frames b)
    (hline : lineFeed ∉ b.pending) :
    (completeFrames .byLine size read).Sublist frames := by
  obtain ⟨taken, htaken, hsublist⟩ := h.complete
  rw [completeLines_kept_of_not_mem hline, List.append_nil] at htaken
  exact htaken ▸ hsublist

/-- Bytes that are read without a frame are accounted for. -/
theorem more {bytes : List Arrival} {q : FrameBuffer}
    (h : LinesTaken size read (bytes ++ rest) frames b) (hbytes : ∀ a ∈ bytes, a.content ≠ [])
    (howed : ∀ more, b.owed (contents bytes ++ more) = q.owed more) (halike : b.Alike q) :
    LinesTaken size (read ++ bytes) rest frames q := by
  cases h with
  | reading done current earlier recent hsize hframes hsegments hdone hfirst hbefore =>
    refine .reading done (current ++ contents bytes) earlier recent (halike.size.trans hsize)
      hframes ?_ hdone hfirst ?_
    · intro more
      rw [List.append_assoc, hsegments, segments_append hbytes]
    · intro more
      rw [List.append_assoc, hbefore, howed]
  | finished hrest hnothing hcomplete =>
    obtain ⟨rfl, rfl⟩ := List.append_eq_nil_iff.1 hrest
    refine .finished rfl ?_ ?_
    · rw [← howed []]
      exact hnothing
    · rw [List.append_nil]
      exact hcomplete

/-- A frame that is taken out of what is pending was the first one owed. -/
theorem frame {f : Frame} {after : FrameBuffer} (h : LinesTaken size read rest frames b)
    (halike : b.Alike after) (howed : ∀ more, b.owed more = f :: after.owed more) :
    LinesTaken size read rest (frames ++ [f]) after := by
  cases h with
  | reading done current earlier recent hsize hframes hsegments hdone hfirst hbefore =>
    refine .reading done current earlier (recent ++ [f]) (halike.size.trans hsize) ?_ hsegments
      hdone hfirst ?_
    · rw [hframes, List.append_assoc]
    · intro more
      rw [hbefore, howed, List.append_assoc]
      rfl
  | finished hrest hnothing hcomplete =>
    rw [howed] at hnothing
    simp at hnothing

/-- The end of the stream makes a frame of what is pending and begins a new segment. -/
theorem ended {f : Frame} (h : LinesTaken size read (.bytes [] :: rest) frames b)
    (hquiet : b.Quiet) (hlast : b.takeLast.1 = .frame f) :
    LinesTaken size (read ++ [.bytes []]) rest (frames ++ [f]) b.takeLast.2 := by
  cases h with
  | reading done current earlier recent hsize hframes hsegments hdone hfirst hbefore =>
    have hcomplete := (completeLines_taken_of_not_mem hquiet.no_line hbefore).sublist
    refine .reading (done ++ [current]) [] (frames ++ [f]) [] hsize (List.append_nil _).symm
      ?_ ?_ (by simp) ?_
    · intro more
      rw [List.append_assoc, List.singleton_append, hsegments, segments, List.append_assoc]
      rfl
    · rw [List.flatMap_append, List.flatMap_singleton, hframes]
      exact (hdone.append hcomplete).trans (List.sublist_append_left _ _)
    · intro more
      rw [owed_of_takeLast hlast, hsize]
      rfl
  | finished hrest => simp at hrest

/-- At the end of a closed stream nothing is owed any more. -/
theorem closed {f : Frame} (h : LinesTaken size read [] frames b) (hquiet : b.Quiet) :
    LinesTaken size read [] (frames ++ [f]) b.takeLast.2 :=
  .finished rfl (owed_takeLast hquiet).2
    ((h.complete_of_not_mem hquiet.no_line).trans (List.sublist_append_left _ _))

/-- A request for a line keeps the account, and leaves the buffer quiet if it waits. -/
theorem next {ending : Ending} {arrivals left tail : List Arrival} {after : FrameBuffer}
    {delivery : Delivery} (h : LinesTaken size read (arrivals ++ tail) frames b)
    (hnext : nextLine ending arrivals b = (delivery, after, left))
    (htail : ending = .closed → tail = []) :
    ∃ more, arrivals = more ++ left ∧ b.Alike after ∧
      (∀ f, delivery = .frame f →
        LinesTaken size (read ++ more) (left ++ tail) (frames ++ [f]) after) ∧
      (delivery = .waiting → LinesTaken size (read ++ more) (left ++ tail) frames after ∧
        after.Quiet) := by
  obtain ⟨bytes, unread, q, rfl, hbytes, howed, halike, hstops⟩ := nextLine_cases hnext
  rw [List.append_assoc] at h
  have hq := h.more hbytes howed halike
  cases hstops with
  | frame hafter hfirst =>
    refine ⟨bytes, rfl, halike.trans hafter, ?_, by simp⟩
    intro f hf
    obtain rfl := Delivery.frame.inj hf
    exact hq.frame hafter hfirst
  | waiting hquiet hending => exact ⟨bytes, rfl, halike, by simp, fun _ => ⟨hq, hquiet⟩⟩
  | failed hquiet fault left =>
    exact ⟨bytes ++ [.failure fault], by simp, halike, by simp, by simp⟩
  | ended hquiet left =>
    refine ⟨bytes ++ [.bytes []], by simp, halike.trans ⟨rfl, rfl⟩, ?_, ?_⟩
    · intro f hf
      rw [← List.append_assoc]
      exact hq.ended hquiet hf
    · intro hf
      exact absurd hf (takeLast_ne_waiting q)
  | closed hquiet hending =>
    obtain rfl := htail hending
    refine ⟨bytes, rfl, halike.trans ⟨rfl, rfl⟩, ?_, ?_⟩
    · intro f hf
      exact hq.closed hquiet
    · intro hf
      exact absurd hf (takeLast_ne_waiting q)

end LinesTaken

/-! ## Both ways of cutting -/

theorem completeFrames_byRead_append (size : Nat) (xs ys : List Arrival) :
    completeFrames .byRead size (xs ++ ys) =
      completeFrames .byRead size xs ++ completeFrames .byRead size ys := by
  unfold completeFrames
  rw [List.filter_append, List.map_append]

/-- A request for a read takes at most that read, and a frame is all of it. -/
theorem nextRead_cases {ending : Ending} {arrivals left : List Arrival} {delivery : Delivery}
    (h : nextRead ending arrivals = (delivery, left)) (size : Nat) :
    ∃ more, arrivals = more ++ left ∧
      (∀ f, delivery = .frame f → completeFrames .byRead size more = [f]) ∧
      (delivery = .waiting → more = []) := by
  unfold nextRead at h
  split at h
  · split at h <;> cases h <;> exact ⟨[], rfl, by simp, fun _ => rfl⟩
  · cases h
    exact ⟨[_], rfl, by simp, by simp⟩
  · cases h
    exact ⟨[_], rfl, by simp, by simp⟩
  · rename_i bytes rest hne
    cases h
    refine ⟨[.bytes bytes], rfl, ?_, by simp⟩
    intro f hf
    obtain rfl := Delivery.frame.inj hf
    have hbytes : (Arrival.bytes bytes).content ≠ [] := hne
    unfold completeFrames
    rw [List.filter_cons_of_pos (by simpa using hbytes)]
    rfl

/-- How frames have been taken from what has been read. -/
inductive Taken (size : Nat) (read rest : List Arrival) (frames : List Frame) (b : FrameBuffer) :
    Prop
  | byRead (hframing : b.framing = .byRead) (hframes : frames = completeFrames .byRead size read)
  | byLine (hframing : b.framing = .byLine) (hlines : LinesTaken size read rest frames b)

namespace Taken

variable {size : Nat} {read rest : List Arrival} {frames : List Frame} {b : FrameBuffer}

/-- Nothing has been taken from a buffer in which nothing is pending. -/
theorem start (hpending : b.pending = []) (hdiscarding : b.discarding = false)
    (arrivals : List Arrival) : Taken b.size [] arrivals [] b := by
  cases hframing : b.framing with
  | byRead => exact .byRead hframing rfl
  | byLine =>
    refine .byLine hframing
      (.reading [] [] [] [] rfl rfl (fun _ => rfl) (List.Sublist.refl _) (fun _ => rfl) ?_)
    intro more
    unfold owed
    rw [hpending, hdiscarding]
    rfl

/-- Everything complete has been taken or is buffered. -/
theorem complete (h : Taken size read rest frames b) :
    ∃ taken, completeFrames b.framing size read = taken ++ b.buffered ∧ taken.Sublist frames := by
  unfold buffered
  cases h with
  | byRead hframing hframes =>
    rw [hframing]
    exact ⟨frames, by rw [hframes, List.append_nil], List.Sublist.refl _⟩
  | byLine hframing hlines =>
    rw [hframing]
    exact hlines.complete

/-- Before the stream comes to its end, all that has been taken is complete frames as long as one is
buffered. -/
theorem eq_of_buffered (h : Taken size read rest frames b) (hread : ∀ a ∈ read, a ≠ .bytes [])
    (hbuffered : b.buffered ≠ []) :
    completeFrames b.framing size read = frames ++ b.buffered := by
  unfold buffered at hbuffered ⊢
  cases h with
  | byRead hframing hframes =>
    rw [hframing] at hbuffered
    exact absurd rfl hbuffered
  | byLine hframing hlines =>
    rw [hframing] at hbuffered ⊢
    exact hlines.eq_of_buffered hread hbuffered

/-- Before the stream comes to its end, every complete request has been taken if and only if none is
buffered. -/
theorem requests_iff (h : Taken size read rest frames b) (hread : ∀ a ∈ read, a ≠ .bytes []) :
    (requests (completeFrames b.framing size read)).Sublist (requests frames) ↔
      requests b.buffered = [] := by
  by_cases hbuffered : b.buffered = []
  · obtain ⟨taken, htaken, hsublist⟩ := h.complete
    rw [htaken, hbuffered, List.append_nil]
    exact iff_of_true (hsublist.filter _) rfl
  · rw [h.eq_of_buffered hread hbuffered, requests_append]
    constructor
    · intro hsublist
      have hlength := hsublist.length_le
      rw [List.length_append] at hlength
      exact List.length_eq_zero_iff.1 (by omega)
    · intro hnone
      simp [hnone]

/-- A request for a frame keeps the account, and leaves the buffer quiet if it waits. -/
theorem next {i left : Inbox} {tail : List Arrival} {after : FrameBuffer} {delivery : Delivery}
    (h : Taken size read (i.arrivals ++ tail) frames b) (hnext : b.next i = (delivery, after, left))
    (htail : i.ending = .closed → tail = []) :
    ∃ more, i.arrivals = more ++ left.arrivals ∧ b.Alike after ∧
      (∀ f, delivery = .frame f →
        Taken size (read ++ more) (left.arrivals ++ tail) (frames ++ [f]) after) ∧
      (delivery = .waiting → Taken size (read ++ more) (left.arrivals ++ tail) frames after ∧
        (after.framing = .byLine → after.Quiet)) := by
  unfold FrameBuffer.next at hnext
  cases h with
  | byRead hframing hframes =>
    rw [hframing] at hnext
    rcases hread : nextRead i.ending i.arrivals with ⟨d, arrivals⟩
    rw [hread] at hnext
    cases hnext
    obtain ⟨more, harrivals, hframe, hwaiting⟩ := nextRead_cases hread size
    refine ⟨more, harrivals, ⟨rfl, rfl⟩, ?_, ?_⟩
    · intro f hf
      refine .byRead hframing ?_
      rw [hframes, completeFrames_byRead_append, hframe f hf]
    · intro hw
      rw [hwaiting hw, List.append_nil, hframing]
      exact ⟨.byRead hframing hframes, by simp⟩
  | byLine hframing hlines =>
    rw [hframing] at hnext
    rcases hline : nextLine i.ending i.arrivals b with ⟨d, c, arrivals⟩
    rw [hline] at hnext
    cases hnext
    obtain ⟨more, harrivals, halike, hframe, hwaiting⟩ := hlines.next hline htail
    have hby : after.framing = .byLine := halike.framing.trans hframing
    refine ⟨more, harrivals, halike, ?_, ?_⟩
    · intro f hf
      exact .byLine hby (hframe f hf)
    · intro hw
      exact ⟨.byLine hby (hwaiting hw).1, fun _ => (hwaiting hw).2⟩

end Taken

end FrameBuffer

end TransferDesk
