import TransferDesk.FrameBuffer.Backlog
import TransferDesk.Proofs.Framing.Reference
/-!
# What a buffer delivers

A buffer that cuts by line owes the frames of all bytes that are pending or still to be read; while
it discards, those behind the end of the current line. Every step of the buffer keeps that account:

* `owed_takeFrame`: a frame that is taken was the first one owed, and if none is taken the buffer is
  `Quiet`, with no line feed and no overflow pending;
* `nextLine_cases`: a request for a line reads bytes without a frame, and then there is one reason
  to stop (`Stops`);
* `accounted_nextLine`: a delivery is the first frame owed or the first failure among the arrivals,
  and the end of the stream is delivered when nothing is owed;
* `deliveries_of_line_framing`: so however the bytes are cut and whatever reads fail in between, the
  frames delivered are those of the whole byte string.
-/

namespace TransferDesk

/-! ## Arrivals -/

namespace Arrival

/-- The bytes that arrive. -/
def content : Arrival → List UInt8
  | bytes bs => bs
  | failure _ => []

/-- The failure that arrives, if it is one. -/
def fault? : Arrival → Option TransportFault
  | bytes _ => none
  | failure fault => some fault

end Arrival

/-- All bytes of a list of arrivals. -/
def contents (arrivals : List Arrival) : List UInt8 :=
  arrivals.flatMap Arrival.content

/-- The failures among arrivals. -/
def faults (arrivals : List Arrival) : List TransportFault :=
  arrivals.filterMap Arrival.fault?

theorem contents_append (xs ys : List Arrival) : contents (xs ++ ys) = contents xs ++ contents ys :=
  List.flatMap_append

theorem faults_append (xs ys : List Arrival) : faults (xs ++ ys) = faults xs ++ faults ys :=
  List.filterMap_append

/-- Bytes are no failure. -/
theorem faults_eq_nil {arrivals : List Arrival} (h : ∀ a ∈ arrivals, a.content ≠ []) :
    faults arrivals = [] := by
  refine List.filterMap_eq_nil_iff.2 ?_
  intro a ha
  cases a with
  | bytes bs => rfl
  | failure fault => exact absurd rfl (h _ ha)

namespace Delivery

/-- The frame that is delivered, if it is one. -/
def frame? : Delivery → Option Frame
  | frame f => some f
  | _ => none

/-- The failure that is delivered, if it is one. -/
def fault? : Delivery → Option TransportFault
  | failed fault => some fault
  | _ => none

end Delivery

namespace FrameBuffer

/-- The frames that a buffer owes if `rest` is still to be read. -/
def owed (b : FrameBuffer) (rest : List UInt8) : List Frame :=
  referenceFrames b.size
    (if b.discarding then afterLine (b.pending ++ rest) else b.pending ++ rest)

/-- No frame can be made of what is pending. -/
structure Quiet (b : FrameBuffer) : Prop where
  no_line : lineFeed ∉ b.pending
  fits : contentLength b.pending ≤ b.size

/-! ## Pending bytes -/

theorem owed_skipRest (b : FrameBuffer) (rest : List UInt8) :
    b.skipRest.owed rest = b.owed rest := by
  unfold skipRest
  split
  · rename_i hd
    split
    · rfl
    · rename_i line behind hs
      obtain ⟨hpending, hline⟩ := splitLine?_eq_some_iff.1 hs
      unfold owed
      rw [if_pos hd, hpending, List.append_assoc, List.cons_append, afterLine_line hline]
      rfl
  · rfl

/-- What is still discarded after the rest of a line has been skipped holds no line feed. -/
theorem no_line_of_discarding_skipRest {b : FrameBuffer} (h : b.skipRest.discarding = true) :
    lineFeed ∉ b.skipRest.pending := by
  unfold skipRest at h ⊢
  split
  · rename_i hd
    rw [if_pos hd] at h
    split
    · rename_i hs
      exact splitLine?_eq_none_iff.1 hs
    · rename_i line behind hs
      rw [hs] at h
      simp at h
  · rename_i hd
    rw [if_neg hd] at h
    exact absurd h hd

theorem owed_takeLine {b after : FrameBuffer} {f : Frame} (h : b.takeLine = (some f, after))
    (rest : List UInt8) : b.owed rest = f :: after.owed rest := by
  unfold takeLine at h
  split at h
  · simp at h
  · rename_i hd
    split at h
    · simp at h
    · rename_i content behind hs
      obtain ⟨hpending, hline⟩ := splitLine?_eq_some_iff.1 hs
      simp only [Prod.mk.injEq, Option.some.injEq] at h
      obtain ⟨rfl, rfl⟩ := h
      unfold owed
      rw [if_neg hd, if_neg hd, hpending, List.append_assoc, List.cons_append,
        referenceFrames_line hline]

theorem takeLine_eq_none {b after : FrameBuffer} (h : b.takeLine = (none, after)) :
    after = b ∧ (b.discarding = false → lineFeed ∉ b.pending) := by
  unfold takeLine at h
  split at h
  · rename_i hd
    simp only [Prod.mk.injEq, true_and] at h
    refine ⟨h.symm, ?_⟩
    intro hd'
    rw [hd] at hd'
    exact absurd hd' (by decide)
  · split at h
    · rename_i hs
      simp only [Prod.mk.injEq, true_and] at h
      exact ⟨h.symm, fun _ => splitLine?_eq_none_iff.1 hs⟩
    · simp at h

theorem owed_takeOverflow {b after : FrameBuffer} {found : Option Frame}
    (hline : lineFeed ∉ b.pending) (h : b.takeOverflow = (found, after)) :
    (∀ rest, b.owed rest = found.toList ++ after.owed rest) ∧ (found = none → after.Quiet) := by
  unfold takeOverflow at h
  split at h
  · rename_i hlong
    simp only [Prod.mk.injEq] at h
    obtain ⟨rfl, rfl⟩ := h
    constructor
    · intro rest
      unfold owed
      by_cases hd : b.discarding = true
      · rw [if_pos hd, if_pos hd, if_pos rfl, afterLine_append hline]
        rfl
      · rw [if_neg hd, if_neg hd, if_pos rfl, referenceFrames_overflow hline hlong]
        rfl
    · intro _
      exact ⟨List.not_mem_nil, Nat.zero_le _⟩
  · rename_i hlong
    simp only [Prod.mk.injEq] at h
    obtain ⟨rfl, rfl⟩ := h
    exact ⟨fun rest => rfl, fun _ => ⟨hline, Nat.not_lt.1 hlong⟩⟩

/-- A frame that is taken was the first one owed. If none is taken, nothing is left to take. -/
theorem owed_takeFrame {b after : FrameBuffer} {found : Option Frame}
    (h : b.takeFrame = (found, after)) :
    (∀ rest, b.owed rest = found.toList ++ after.owed rest) ∧ (found = none → after.Quiet) := by
  unfold takeFrame at h
  split at h
  · rename_i f next htake
    simp only [Prod.mk.injEq] at h
    obtain ⟨rfl, rfl⟩ := h
    refine ⟨?_, by simp⟩
    intro rest
    rw [← owed_skipRest, owed_takeLine htake]
    rfl
  · rename_i next htake
    -- there is no line feed left, also in what is discarded
    obtain ⟨rfl, hopen⟩ := takeLine_eq_none htake
    have hline : lineFeed ∉ b.skipRest.pending := by
      cases hd : b.skipRest.discarding with
      | true => exact no_line_of_discarding_skipRest hd
      | false => exact hopen hd
    obtain ⟨howed, hquiet⟩ := owed_takeOverflow hline h
    refine ⟨?_, hquiet⟩
    intro rest
    rw [← owed_skipRest, howed]

/-- At the end of the stream a quiet buffer gives what is pending, and owes nothing after it. -/
theorem owed_takeLast {b : FrameBuffer} (h : b.Quiet) :
    (b.takeLast.1 = .ended ∧ b.owed [] = [] ∨
      ∃ f, b.takeLast.1 = .frame f ∧ b.owed [] = [f]) ∧ b.takeLast.2.owed [] = [] := by
  constructor
  · unfold takeLast owed
    rw [List.append_nil]
    by_cases hd : b.discarding = true
    · left
      rw [if_pos (Or.inl hd), if_pos hd, afterLine_of_not_mem h.no_line]
      exact ⟨rfl, rfl⟩
    · by_cases hp : b.pending = []
      · left
        rw [if_pos (Or.inr hp), if_neg hd, hp]
        exact ⟨rfl, rfl⟩
      · right
        refine ⟨.line (decodeLine b.pending), ?_, ?_⟩
        · rw [if_neg (not_or.2 ⟨hd, hp⟩)]
        · rw [if_neg hd, referenceFrames_of_not_mem h.no_line hp, if_neg (Nat.not_lt.2 h.fits)]
  · unfold takeLast owed
    simp only [List.append_nil]
    split <;> rfl

/-! ## Requests for a line -/

/-- To take a frame changes nothing but what is pending. -/
theorem exists_takeFrame (b : FrameBuffer) :
    ∃ pending discarding, b.takeFrame.2 = { b with pending, discarding } := by
  have hskip : ∃ pending discarding, b.skipRest = { b with pending, discarding } := by
    unfold skipRest
    split
    · split <;> exact ⟨_, _, rfl⟩
    · exact ⟨_, _, rfl⟩
  have hline (c : FrameBuffer) :
      ∃ pending discarding, c.takeLine.2 = { c with pending, discarding } := by
    unfold takeLine
    split
    · exact ⟨_, _, rfl⟩
    · split <;> exact ⟨_, _, rfl⟩
  have hover (c : FrameBuffer) :
      ∃ pending discarding, c.takeOverflow.2 = { c with pending, discarding } := by
    unfold takeOverflow
    split <;> exact ⟨_, _, rfl⟩
  obtain ⟨pending, discarding, hskip⟩ := hskip
  obtain ⟨_, _, hline⟩ := hline { b with pending, discarding }
  unfold takeFrame
  rw [hskip]
  split
  · rename_i htake
    rw [htake] at hline
    exact ⟨_, _, hline⟩
  · rename_i c htake
    rw [htake] at hline
    obtain rfl : c = _ := hline
    obtain ⟨_, _, hover⟩ := hover _
    exact ⟨_, _, hover⟩

theorem framing_takeFrame (b : FrameBuffer) : b.takeFrame.2.framing = b.framing := by
  obtain ⟨_, _, h⟩ := b.exists_takeFrame
  rw [h]

theorem size_takeFrame (b : FrameBuffer) : b.takeFrame.2.size = b.size := by
  obtain ⟨_, _, h⟩ := b.exists_takeFrame
  rw [h]

/-- Two buffers that differ in what is pending at most. -/
structure Alike (b c : FrameBuffer) : Prop where
  framing : c.framing = b.framing
  size : c.size = b.size

theorem Alike.trans {b c d : FrameBuffer} (hbc : b.Alike c) (hcd : c.Alike d) : b.Alike d :=
  ⟨hcd.framing.trans hbc.framing, hcd.size.trans hbc.size⟩

theorem alike_of_takeFrame {b after : FrameBuffer} {found : Option Frame}
    (h : b.takeFrame = (found, after)) : b.Alike after := by
  have hframing := b.framing_takeFrame
  have hsize := b.size_takeFrame
  rw [h] at hframing hsize
  exact ⟨hframing, hsize⟩

theorem owed_append (b : FrameBuffer) (bytes rest : List UInt8) :
    b.owed (bytes ++ rest) = owed { b with pending := b.pending ++ bytes } rest := by
  unfold owed
  rw [List.append_assoc]

/-- Bytes that are read on are owed for beforehand. -/
theorem owed_contents_cons {b q : FrameBuffer} {bytes : List UInt8} {read : List Arrival}
    (howed : ∀ more,
      ({ b with pending := b.pending ++ bytes } : FrameBuffer).owed (contents read ++ more) =
        q.owed more)
    (more : List UInt8) : b.owed (contents (.bytes bytes :: read) ++ more) = q.owed more := by
  have hbytes : contents (.bytes bytes :: read) ++ more = bytes ++ (contents read ++ more) :=
    List.append_assoc bytes (contents read) more
  rw [hbytes, owed_append, howed]

/-- A frame that is in the buffer is delivered, and nothing is read for it. -/
theorem nextLine_of_takeFrame_eq_some {ending : Ending} {arrivals : List Arrival}
    {b after : FrameBuffer} {f : Frame} (h : b.takeFrame = (some f, after)) :
    nextLine ending arrivals b = (.frame f, after, arrivals) := by
  cases arrivals <;> rw [nextLine, h]

/-- Why a request for a line reads no further, once the buffer is `q`: what comes of it and what is
left in the buffer and of the arrivals. -/
inductive Stops (ending : Ending) (q : FrameBuffer) :
    List Arrival → Delivery → FrameBuffer → List Arrival → Prop
  | frame {f : Frame} {after : FrameBuffer} {rest : List Arrival} (halike : q.Alike after)
    (howed : ∀ more, q.owed more = f :: after.owed more) : Stops ending q rest (.frame f) after rest
  | waiting (hquiet : q.Quiet) (hending : ending = .silent) : Stops ending q [] .waiting q []
  | failed (hquiet : q.Quiet) (fault : TransportFault) (rest : List Arrival) :
    Stops ending q (.failure fault :: rest) (.failed fault) q rest
  | ended (hquiet : q.Quiet) (rest : List Arrival) :
    Stops ending q (.bytes [] :: rest) q.takeLast.1 q.takeLast.2 rest
  | closed (hquiet : q.Quiet) (hending : ending = .closed) :
    Stops ending q [] q.takeLast.1 q.takeLast.2 []

theorem next_byLine {b : FrameBuffer} (hframing : b.framing = .byLine) (i : Inbox) :
    b.next i = ((nextLine i.ending i.arrivals b).1, (nextLine i.ending i.arrivals b).2.1,
      { i with arrivals := (nextLine i.ending i.arrivals b).2.2 }) := by
  unfold next
  rw [hframing]

/-- All that a request for a line can do. -/
theorem nextLine_cases {ending : Ending} {arrivals rest : List Arrival} {b after : FrameBuffer}
    {delivery : Delivery} (h : nextLine ending arrivals b = (delivery, after, rest)) :
    ∃ read left q, arrivals = read ++ left ∧ (∀ a ∈ read, a.content ≠ []) ∧
      (∀ more, b.owed (contents read ++ more) = q.owed more) ∧ b.Alike q ∧
      Stops ending q left delivery after rest := by
  induction arrivals generalizing b with
  | nil =>
    cases htake : b.takeFrame with
    | mk found q =>
      obtain ⟨howed, hquiet⟩ := owed_takeFrame htake
      have halike := alike_of_takeFrame htake
      cases found with
      | some f =>
        cases (nextLine_of_takeFrame_eq_some htake).symm.trans h
        exact ⟨[], [], b, rfl, by simp, fun _ => rfl, ⟨rfl, rfl⟩, .frame halike howed⟩
      | none =>
        rw [nextLine, htake] at h
        refine ⟨[], [], q, rfl, by simp, howed, halike, ?_⟩
        cases ending with
        | closed =>
          cases h
          exact .closed (hquiet rfl) rfl
        | silent =>
          cases h
          exact .waiting (hquiet rfl) rfl
  | cons arrival arrivals ih =>
    cases htake : b.takeFrame with
    | mk found q =>
      obtain ⟨howed, hquiet⟩ := owed_takeFrame htake
      have halike := alike_of_takeFrame htake
      cases found with
      | some f =>
        cases (nextLine_of_takeFrame_eq_some htake).symm.trans h
        exact ⟨[], _, b, rfl, by simp, fun _ => rfl, ⟨rfl, rfl⟩, .frame halike howed⟩
      | none =>
        rw [nextLine, htake] at h
        cases arrival with
        | failure fault =>
          cases h
          exact ⟨[], _, _, rfl, by simp, howed, halike, .failed (hquiet rfl) fault rest⟩
        | bytes bytes =>
          cases bytes with
          | nil =>
            cases h
            exact ⟨[], _, _, rfl, by simp, howed, halike, .ended (hquiet rfl) rest⟩
          | cons x xs =>
            obtain ⟨read, left, last, rfl, hread, hlast, hsame, hstops⟩ := ih h
            have hmore (a) (ha : a ∈ .bytes (x :: xs) :: read) : a.content ≠ [] := by
              rcases List.mem_cons.1 ha with rfl | ha
              · exact List.cons_ne_nil x xs
              · exact hread a ha
            exact ⟨.bytes (x :: xs) :: read, left, last, rfl, hmore,
              fun more => (howed _).trans (owed_contents_cons hlast more),
              halike.trans ⟨hsame.framing, hsame.size⟩, hstops⟩

/-! ## Deliveries -/

/-- What a delivery says about a closed stream: the account before it, as far as frames and failures
are still to come, and the account after it. -/
def Accounted (before : List Frame × List TransportFault) :
    Delivery → List Frame × List TransportFault → Prop
  | .frame f, after => before = (f :: after.1, after.2)
  | .failed fault, after => before = (after.1, fault :: after.2)
  | .ended, after => before = ([], []) ∧ after = ([], [])
  | .waiting, _ => False

/-- The frames and the failures that are still to come. -/
def account (b : FrameBuffer) (arrivals : List Arrival) : List Frame × List TransportFault :=
  (b.owed (contents arrivals), faults arrivals)

/-- Whether every arrival is a failure or some bytes. -/
def Arriving (arrivals : List Arrival) : Prop :=
  .bytes [] ∉ arrivals

/-- The end of a closed stream. -/
theorem accounted_takeLast {b : FrameBuffer} (h : b.Quiet) :
    Accounted (b.account []) b.takeLast.1 (b.takeLast.2.account []) := by
  obtain ⟨hlast, hafter⟩ := owed_takeLast h
  have hcontents : contents [] = [] := rfl
  unfold account
  rw [hcontents, hafter]
  rcases hlast with ⟨hd, hnone⟩ | ⟨f, hd, hsome⟩
  · rw [hd, hnone]
    exact ⟨rfl, rfl⟩
  · rw [hd, hsome]
    rfl

/-- One request for a frame, on a closed stream. -/
theorem accounted_nextLine {arrivals rest : List Arrival} {b after : FrameBuffer}
    {delivery : Delivery} (harr : Arriving arrivals)
    (h : nextLine .closed arrivals b = (delivery, after, rest)) :
    Accounted (b.account arrivals) delivery (after.account rest) ∧ Arriving rest ∧
      after.framing = b.framing := by
  obtain ⟨read, left, q, rfl, hread, howed, halike, hstops⟩ := nextLine_cases h
  have harr' : Arriving left := fun hmem => harr (List.mem_append_right read hmem)
  -- what is read without a frame was part of the account all along
  have haccount : b.account (read ++ left) = q.account left := by
    unfold account
    rw [contents_append, howed, faults_append, faults_eq_nil hread]
    rfl
  rw [haccount]
  cases hstops with
  | frame hafter hfirst =>
    refine ⟨?_, harr', (halike.trans hafter).framing⟩
    exact Prod.ext (hfirst _) rfl
  | waiting hquiet hending => simp at hending
  | failed hquiet fault rest =>
    exact ⟨rfl, fun hmem => harr' (List.mem_cons_of_mem _ hmem), halike.framing⟩
  | ended hquiet rest => exact absurd List.mem_cons_self harr'
  | closed hquiet hending => exact ⟨accounted_takeLast hquiet, harr', halike.framing⟩

/-- Once nothing is to come, every request finds the end of the stream. -/
theorem ask_of_account_nil {arrivals : List Arrival} {b : FrameBuffer}
    (hframing : b.framing = .byLine) (harr : Arriving arrivals)
    (h : b.account arrivals = ([], [])) (times : Nat) :
    b.ask times { arrivals } = List.replicate times .ended := by
  induction times generalizing b arrivals with
  | zero => rfl
  | succ times ih =>
    cases hnext : nextLine .closed arrivals b with
    | mk delivery left =>
      obtain ⟨after, rest⟩ := left
      obtain ⟨hacc, hrest, hkept⟩ := accounted_nextLine harr hnext
      rw [h] at hacc
      simp only [ask, next, hframing, hnext]
      cases delivery with
      | frame f => simp [Accounted] at hacc
      | failed fault => simp [Accounted] at hacc
      | waiting => exact absurd hacc id
      | ended =>
        rw [ih (hkept.trans hframing) hrest hacc.2]
        rfl

/-- A delivery before the end pays off one frame or one failure. -/
theorem Accounted.paid {before after : List Frame × List TransportFault} {d : Delivery}
    (h : Accounted before d after) (hopen : before.1.length + before.2.length ≠ 0) :
    d ≠ .ended ∧ d ≠ .waiting ∧
      before = (d.frame?.toList ++ after.1, d.fault?.toList ++ after.2) ∧
      before.1.length + before.2.length = after.1.length + after.2.length + 1 := by
  cases d with
  | frame f =>
    obtain rfl : before = (f :: after.1, after.2) := h
    refine ⟨by simp, by simp, rfl, ?_⟩
    simp only [List.length_cons]
    omega
  | failed fault =>
    obtain rfl : before = (after.1, fault :: after.2) := h
    refine ⟨by simp, by simp, rfl, ?_⟩
    simp only [List.length_cons]
    omega
  | ended =>
    rw [h.1] at hopen
    exact absurd rfl hopen
  | waiting => exact absurd h id

theorem filterMap_cons_eq {α β : Type} (f : α → Option β) (x : α) (xs : List α) :
    (x :: xs).filterMap f = (f x).toList ++ xs.filterMap f := by
  rw [List.filterMap_cons]
  cases f x <;> rfl

/-- Asked often enough, a buffer delivers what the account says and then the end of the stream. -/
theorem exists_deliveries {arrivals : List Arrival} {b : FrameBuffer}
    (hframing : b.framing = .byLine) (harr : Arriving arrivals) :
    ∃ deliveries, (∀ more, b.ask (deliveries.length + more) { arrivals } =
        deliveries ++ List.replicate more .ended) ∧
      (∀ d ∈ deliveries, d ≠ .ended ∧ d ≠ .waiting) ∧
      deliveries.filterMap Delivery.frame? = (b.account arrivals).1 ∧
      deliveries.filterMap Delivery.fault? = (b.account arrivals).2 := by
  -- what is still to come gets one less with every delivery before the end
  induction hn : (b.account arrivals).1.length + (b.account arrivals).2.length
    generalizing b arrivals with
  | zero =>
    have hnil : b.account arrivals = ([], []) :=
      Prod.ext (List.length_eq_zero_iff.1 (by omega)) (List.length_eq_zero_iff.1 (by omega))
    refine ⟨[], ?_, by simp, by rw [hnil]; rfl, by rw [hnil]; rfl⟩
    intro more
    rw [List.length_nil, Nat.zero_add, ask_of_account_nil hframing harr hnil]
    rfl
  | succ n ih =>
    cases hnext : nextLine .closed arrivals b with
    | mk d left =>
      obtain ⟨after, rest⟩ := left
      obtain ⟨hacc, hrest, hkept⟩ := accounted_nextLine harr hnext
      obtain ⟨hended, hwaiting, hbefore, hless⟩ := hacc.paid (by omega)
      obtain ⟨ds, hds, hmid, hframes, hfaults⟩ := ih (hkept.trans hframing) hrest (by omega)
      refine ⟨d :: ds, ?_, ?_, ?_, ?_⟩
      · intro more
        have hlen : (d :: ds).length + more = (ds.length + more) + 1 := by
          rw [List.length_cons]
          omega
        rw [hlen]
        simp only [ask, next, hframing, hnext]
        rw [hds]
        rfl
      · intro e he
        rcases List.mem_cons.1 he with rfl | he
        · exact ⟨hended, hwaiting⟩
        · exact hmid e he
      · rw [hbefore, filterMap_cons_eq, hframes]
      · rw [hbefore, filterMap_cons_eq, hfaults]

/-! ## Cutting chunks into reads -/

theorem contents_cut (size : Nat) (a : Arrival) : contents (a.cut size) = a.content := by
  cases a with
  | bytes bs =>
    unfold contents Arrival.cut
    rw [List.flatMap_map]
    exact List.flatMap_id.trans (flatten_pieces size bs)
  | failure fault => rfl

theorem faults_cut (size : Nat) (a : Arrival) : faults (a.cut size) = a.fault?.toList := by
  cases a with
  | bytes bs =>
    unfold faults Arrival.cut
    rw [List.filterMap_map]
    exact List.filterMap_eq_nil_iff.2 fun _ _ => rfl
  | failure fault => rfl

theorem arriving_cut (size : Nat) {a : Arrival} (ha : a ≠ .bytes []) : Arriving (a.cut size) := by
  intro hmem
  cases a with
  | bytes bs =>
    obtain ⟨piece, hpiece, he⟩ := List.mem_map.1 hmem
    refine ne_nil_of_mem_pieces ?_ hpiece (Arrival.bytes.inj he)
    rintro rfl
    exact ha rfl
  | failure fault => simp [Arrival.cut] at hmem

theorem arriving_cuts (size : Nat) {chunks : List Arrival} (h : Arriving chunks) :
    Arriving (chunks.flatMap (·.cut size)) := by
  intro hmem
  obtain ⟨a, ha, hcut⟩ := List.mem_flatMap.1 hmem
  refine arriving_cut size ?_ hcut
  rintro rfl
  exact h ha

theorem contents_cuts (size : Nat) (chunks : List Arrival) :
    contents (chunks.flatMap (·.cut size)) = contents chunks := by
  unfold contents
  rw [List.flatMap_assoc]
  exact congrArg chunks.flatMap (funext (contents_cut size))

theorem faults_cuts (size : Nat) (chunks : List Arrival) :
    faults (chunks.flatMap (·.cut size)) = faults chunks := by
  induction chunks with
  | nil => rfl
  | cons a as ih =>
    rw [List.flatMap_cons, faults_append, faults_cut, ih]
    cases a <;> rfl

theorem contents_map_bytes (chunks : List (List UInt8)) :
    contents (chunks.map .bytes) = chunks.flatten := by
  unfold contents
  rw [List.flatMap_map]
  exact List.flatMap_id

theorem faults_map_bytes (chunks : List (List UInt8)) : faults (chunks.map .bytes) = [] := by
  unfold faults
  rw [List.filterMap_map]
  exact List.filterMap_eq_nil_iff.2 fun _ _ => rfl

/-- The frames of a stream that is cut by line do not depend on how its bytes arrive. Take any
chunks of bytes with failures anywhere between them, read at most `size` bytes at a time from a
stream that is then closed. The deliveries before the first end of the stream are the frames of all
the bytes put together, in order, and each of the failures, in order; every later request finds the
end again. -/
theorem deliveries_of_line_framing {size : Nat} (hsize : 1 ≤ size) {chunks : List Arrival}
    (hchunks : Arriving chunks) :
    ∃ deliveries,
      (∀ more, (create .byLine size).ask (deliveries.length + more)
          (Inbox.ofChunks size chunks .closed) = deliveries ++ List.replicate more .ended) ∧
      (∀ d ∈ deliveries, d ≠ .ended ∧ d ≠ .waiting) ∧
      deliveries.filterMap Delivery.frame? = referenceFrames size (contents chunks) ∧
      deliveries.filterMap Delivery.fault? = faults chunks ∧
      (linePieces (contents chunks)).flatten = contents chunks := by
  have harr : Arriving (chunks.flatMap (·.cut size)) := arriving_cuts size hchunks
  obtain ⟨ds, hask, hmid, hframes, hfaults⟩ :=
    exists_deliveries (b := create .byLine size) rfl harr
  refine ⟨ds, hask, hmid, ?_, hfaults.trans (faults_cuts size chunks), flatten_linePieces _⟩
  rw [hframes]
  change referenceFrames (max size 1) (contents (chunks.flatMap (·.cut size))) = _
  rw [Nat.max_eq_left hsize, contents_cuts]

/-- A line of five bytes and one of four, cut inside their line endings, with a failure between. -/
def tornLines : List Arrival :=
  [.bytes [80, 73, 78, 71, 83, 13], .failure .timedOut, .bytes [10, 80, 73], .bytes [78, 71, 13],
    .bytes [10]]

theorem deliveries_of_tornLines :
    1 ≤ 4 ∧ Arriving tornLines ∧
    ∃ deliveries,
      (∀ more, (create .byLine 4).ask (deliveries.length + more)
          (Inbox.ofChunks 4 tornLines .closed) = deliveries ++ List.replicate more .ended) ∧
      (∀ d ∈ deliveries, d ≠ .ended ∧ d ≠ .waiting) ∧
      deliveries.filterMap Delivery.frame? = [.oversized, .line ['P', 'I', 'N', 'G']] ∧
      deliveries.filterMap Delivery.fault? = [.timedOut] ∧
      (linePieces (contents tornLines)).flatten = contents tornLines := by
  have harr : Arriving tornLines := by
    unfold Arriving
    decide
  have hframes : referenceFrames 4 (contents tornLines) =
      [.oversized, .line ['P', 'I', 'N', 'G']] := by
    decide
  rw [← hframes]
  exact ⟨by decide, harr, deliveries_of_line_framing (by decide) harr⟩

end FrameBuffer

end TransferDesk
