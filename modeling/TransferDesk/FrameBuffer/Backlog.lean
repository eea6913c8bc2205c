import TransferDesk.FrameBuffer
/-!
# Every frame uses input up

The backlog of a buffer and an inbox is the work that they can still cause: the bytes that are
pending, and for every arrival its bytes and one more. `backlog_next` says that every frame leaves a
smaller backlog, so asking for frames until there is none comes to an end.
-/

namespace TransferDesk

namespace FrameBuffer

/-! ## Pending bytes -/

theorem length_of_splitLine? {bytes line rest : List UInt8}
    (h : splitLine? bytes = some (line, rest)) : bytes.length = line.length + rest.length + 1 := by
  rw [(splitLine?_eq_some_iff.1 h).1, List.length_append, List.length_cons]
  omega

theorem length_pending_skipRest_le (b : FrameBuffer) :
    b.skipRest.pending.length ≤ b.pending.length := by
  unfold skipRest
  split
  · split
    · exact Nat.le_refl _
    · rename_i h
      have := length_of_splitLine? h
      simp only
      omega
  · exact Nat.le_refl _

theorem length_pending_takeLine (b : FrameBuffer) :
    (b.takeLine.1 = none ∧ b.takeLine.2 = b) ∨
      (b.takeLine.1.isSome ∧ b.takeLine.2.pending.length < b.pending.length) := by
  unfold takeLine
  split
  · simp
  · split
    · simp
    · rename_i h
      have := length_of_splitLine? h
      right
      simp only [Option.isSome_some, true_and]
      omega

theorem contentLength_le (bytes : List UInt8) : contentLength bytes ≤ bytes.length := by
  unfold contentLength
  split <;> omega

theorem length_pending_takeOverflow (b : FrameBuffer) :
    b.takeOverflow.2.pending.length ≤ b.pending.length ∧
      (b.takeOverflow.1.isSome → b.takeOverflow.2.pending.length < b.pending.length) := by
  have := contentLength_le b.pending
  unfold takeOverflow
  split
  · simp only [List.length_nil]
    omega
  · simp

/-- A frame that is taken from the pending bytes leaves fewer of them. -/
theorem length_pending_takeFrame (b : FrameBuffer) :
    b.takeFrame.2.pending.length ≤ b.pending.length ∧
      (b.takeFrame.1.isSome → b.takeFrame.2.pending.length < b.pending.length) := by
  have hs := length_pending_skipRest_le b
  have hl := length_pending_takeLine b.skipRest
  unfold takeFrame
  split
  · rename_i f after heq
    rw [heq] at hl
    simp only [reduceCtorEq, false_and, Option.isSome_some, true_and, false_or] at hl
    simp only [Option.isSome_some]
    omega
  · rename_i after heq
    rw [heq] at hl
    simp only [true_and, Option.isSome_none, Bool.false_eq_true, false_and, or_false] at hl
    subst hl
    have ho := length_pending_takeOverflow b.skipRest
    exact ⟨Nat.le_trans ho.1 hs, fun h => Nat.lt_of_lt_of_le (ho.2 h) hs⟩

/-! ## Arrivals -/

/-- How much work pending bytes and a list of arrivals can cause. -/
def load (pending : List UInt8) (arrivals : List Arrival) : Nat :=
  pending.length + Arrival.weights arrivals

theorem load_takeLast {b after : FrameBuffer} {f : Frame} (rest : List Arrival)
    (h : b.takeLast = (.frame f, after)) : load after.pending rest < load b.pending rest := by
  unfold takeLast at h
  simp only [Prod.mk.injEq] at h
  obtain ⟨hf, rfl⟩ := h
  split at hf
  · simp at hf
  · rename_i hne
    have : b.pending ≠ [] := fun he => hne (Or.inr he)
    have := List.length_pos_iff.2 this
    simp only [load, List.length_nil]
    omega

theorem load_nextLine {ending : Ending} {arrivals rest : List Arrival} {b after : FrameBuffer}
    {f : Frame} (h : nextLine ending arrivals b = (.frame f, after, rest)) :
    load after.pending rest < load b.pending arrivals := by
  induction arrivals generalizing b with
  | nil =>
    have hb := length_pending_takeFrame b
    rw [nextLine] at h
    split at h
    · rename_i taken left heq
      rw [heq] at hb
      simp only [Prod.mk.injEq] at h
      obtain ⟨-, rfl, rfl⟩ := h
      have := hb.2 rfl
      simp only [load] at *
      omega
    · rename_i left heq
      rw [heq] at hb
      split at h
      · cases hlast : left.takeLast with
        | mk last left' =>
          rw [hlast] at h
          simp only [Prod.mk.injEq] at h
          obtain ⟨rfl, rfl, rfl⟩ := h
          have := load_takeLast [] hlast
          simp only [load] at *
          omega
      · simp at h
  | cons arrival arrivals ih =>
    have hb := length_pending_takeFrame b
    rw [nextLine] at h
    split at h
    · rename_i taken left heq
      rw [heq] at hb
      simp only [Prod.mk.injEq] at h
      obtain ⟨-, rfl, rfl⟩ := h
      have := hb.2 rfl
      simp only [load] at *
      omega
    · rename_i left heq
      rw [heq] at hb
      split at h
      · simp at h
      · cases hlast : left.takeLast with
        | mk last left' =>
          rw [hlast] at h
          simp only [Prod.mk.injEq] at h
          obtain ⟨rfl, rfl, rfl⟩ := h
          have := load_takeLast arrivals hlast
          simp only [load, Arrival.weights] at *
          omega
      · rename_i bytes _
        have := ih h
        simp only [load, Arrival.weights, Arrival.weight, List.length_append] at *
        omega

theorem load_nextRead {ending : Ending} {arrivals rest : List Arrival} {f : Frame}
    (pending : List UInt8) (h : nextRead ending arrivals = (.frame f, rest)) :
    load pending rest < load pending arrivals := by
  unfold nextRead at h
  split at h
  · split at h <;> simp at h
  · simp at h
  · simp at h
  · simp only [Prod.mk.injEq] at h
    obtain ⟨-, rfl⟩ := h
    simp only [load, Arrival.weights, Arrival.weight]
    omega

/-- How much work a buffer and an inbox can cause. -/
def backlog (b : FrameBuffer) (i : Inbox) : Nat :=
  load b.pending i.arrivals

/-- Every frame leaves less work. -/
theorem backlog_next {b after : FrameBuffer} {i rest : Inbox} {f : Frame}
    (h : b.next i = (.frame f, after, rest)) : after.backlog rest < b.backlog i := by
  unfold next at h
  split at h
  · cases hn : nextRead i.ending i.arrivals with
    | mk delivery arrivals =>
      rw [hn] at h
      simp only [Prod.mk.injEq] at h
      obtain ⟨rfl, rfl, rfl⟩ := h
      exact load_nextRead b.pending hn
  · cases hn : nextLine i.ending i.arrivals b with
    | mk delivery r =>
      rw [hn] at h
      simp only [Prod.mk.injEq] at h
      obtain ⟨rfl, rfl, rfl⟩ := h
      exact load_nextLine hn

/-! ## Runs of frames -/

/-- What comes of asking for a frame a given number of times. -/
def ask : Nat → FrameBuffer → Inbox → List Delivery
  | 0, _, _ => []
  | times + 1, b, i =>
    let (delivery, b, i) := b.next i
    delivery :: ask times b i

/-- What comes of asking for frames up to the first time that there is none. -/
def drain (b : FrameBuffer) (i : Inbox) : List Delivery :=
  match _h : b.next i with
  | (.frame f, after, rest) => .frame f :: drain after rest
  | (delivery, _, _) => [delivery]
termination_by b.backlog i
decreasing_by exact backlog_next _h

theorem drain_of_frame {b after : FrameBuffer} {i rest : Inbox} {f : Frame}
    (h : b.next i = (.frame f, after, rest)) : b.drain i = .frame f :: after.drain rest := by
  rw [drain]
  split
  · rename_i heq
    rw [h] at heq
    simp_all
  · rename_i hne heq
    rw [h] at heq
    simp only [Prod.mk.injEq] at heq
    exact absurd heq.1.symm (hne f)

theorem drain_of_stop {b after : FrameBuffer} {i rest : Inbox} {d : Delivery}
    (h : b.next i = (d, after, rest)) (hd : ∀ f, d ≠ .frame f) : b.drain i = [d] := by
  rw [drain]
  split
  · rename_i f _ _ heq
    rw [h] at heq
    exact absurd (Prod.mk.inj heq).1 (hd f)
  · rename_i heq
    rw [h] at heq
    rw [(Prod.mk.inj heq).1]

end FrameBuffer

end TransferDesk
