/-!
# Byte streams

The two sides of a connection as its server sees them. The `Inbox` is what still comes in: a list
of arrivals, each of which one read takes, and what the stream does when they are used up. The
`Outbox` is what has gone out and how the peer takes it: possibly a few bytes at a time, and
possibly not for ever. What a write has taken is delivered, so there is nothing to flush and no
flush that could fail. To close the stream for writing always succeeds.
-/

namespace TransferDesk

/-- Why reading from or writing to a stream fails. Whoever reads or writes only passes it on. -/
inductive TransportFault where
  | connectionReset
  | timedOut
  | brokenPipe
  /-- A write took no byte at all. -/
  | writeZero
  /-- Any other reason, in the words of the system. -/
  | other (detail : String)
deriving DecidableEq, Repr

/-- Cuts bytes into pieces of at most `size` bytes, all but the last of exactly that many. There is
always a piece, and no cut if `size` is zero. -/
def pieces (size : Nat) (bytes : List UInt8) : List (List UInt8) :=
  if size = 0 ∨ bytes.length ≤ size then [bytes]
  else bytes.take size :: pieces size (bytes.drop size)
termination_by bytes.length
decreasing_by
  rw [List.length_drop]
  omega

theorem flatten_pieces (size : Nat) (bytes : List UInt8) : (pieces size bytes).flatten = bytes := by
  fun_induction pieces size bytes with
  | case1 bytes _ => simp
  | case2 bytes _ ih => rw [List.flatten_cons, ih, List.take_append_drop]

theorem length_le_of_mem_pieces {size : Nat} {bytes piece : List UInt8} (h : 0 < size)
    (hp : piece ∈ pieces size bytes) : piece.length ≤ size := by
  fun_induction pieces size bytes with
  | case1 bytes hs =>
    rw [List.mem_singleton] at hp
    subst hp
    omega
  | case2 bytes _ ih =>
    rcases List.mem_cons.1 hp with rfl | hp
    · exact List.length_take_le _ _
    · exact ih hp

/-- Only the piece of no bytes is empty. -/
theorem ne_nil_of_mem_pieces {size : Nat} {bytes piece : List UInt8} (h : bytes ≠ [])
    (hp : piece ∈ pieces size bytes) : piece ≠ [] := by
  fun_induction pieces size bytes with
  | case1 bytes _ =>
    rw [List.mem_singleton] at hp
    exact hp ▸ h
  | case2 bytes hs ih =>
    rcases List.mem_cons.1 hp with rfl | hp
    · intro he
      have := congrArg List.length he
      simp only [List.length_take, List.length_nil] at this
      omega
    · refine ih (fun he => ?_) hp
      have := congrArg List.length he
      simp only [List.length_drop, List.length_nil] at this
      omega

/-! ## Input -/

/-- What one read meets. Zero bytes are the end of the stream. -/
inductive Arrival where
  | bytes (bytes : List UInt8)
  | failure (fault : TransportFault)
deriving DecidableEq, Repr

/-- An arrival as reads of at most `size` bytes each see it. -/
def Arrival.cut (size : Nat) : Arrival → List Arrival
  | bytes bs => (pieces size bs).map bytes
  | failure fault => [failure fault]

/-- How much work an arrival can cause. -/
def Arrival.weight : Arrival → Nat
  | bytes bs => bs.length + 1
  | failure _ => 1

/-- How much work arrivals can cause. -/
def Arrival.weights : List Arrival → Nat
  | [] => 0
  | arrival :: arrivals => arrival.weight + weights arrivals

/-- What a stream does when all arrivals have been read. -/
inductive Ending where
  /-- Every further read meets the end of the stream. -/
  | closed
  /-- Every further read waits. -/
  | silent
deriving DecidableEq, Repr

/-- What is still to be read from a stream. -/
structure Inbox where
  arrivals : List Arrival := []
  ending : Ending := .closed
deriving DecidableEq, Repr

namespace Inbox

/-- The inbox of a stream whose chunks are read in pieces of at most `size` bytes. -/
def ofChunks (size : Nat) (chunks : List Arrival) (ending : Ending) : Inbox :=
  { arrivals := chunks.flatMap (·.cut size), ending }

end Inbox

/-! ## Output -/

/-- What has been written to a stream, and how it takes what is written. -/
structure Outbox where
  /-- All bytes the stream has taken. -/
  delivered : List UInt8 := []
  /-- How many more writes succeed, if there is a limit. -/
  budget : Option Nat := none
  /-- Why every write after those fails. -/
  refusal : TransportFault := .brokenPipe
  /-- The most bytes that each of the next writes takes. -/
  portions : List Nat := []
  /-- The most bytes that every write after those takes, if there is a limit. -/
  grain : Option Nat := none
  /-- Whether the stream has been closed for writing. -/
  closed : Bool := false
deriving DecidableEq, Repr

namespace Outbox

/-- How many of the bytes given the next write takes. -/
def appetite (o : Outbox) (bytes : List UInt8) : Nat :=
  match o.portions, o.grain with
  | portion :: _, _ => min portion bytes.length
  | [], some grain => min grain bytes.length
  | [], none => bytes.length

/-- Writes once. The answer is how many of the bytes the stream takes. -/
def write (o : Outbox) (bytes : List UInt8) : Except TransportFault Nat × Outbox :=
  match o.budget with
  | some 0 => (.error o.refusal, o)
  | budget =>
    let taken := o.appetite bytes
    (.ok taken, { o with
      delivered := o.delivered ++ bytes.take taken
      budget := budget.map (· - 1)
      portions := o.portions.tail })

/-- Writes bytes in as many writes as it takes, up to the first that fails or takes nothing. -/
def send (o : Outbox) (bytes : List UInt8) : Option TransportFault × Outbox :=
  if _h : bytes = [] then (none, o)
  else
    match o.write bytes with
    | (.error fault, o) => (some fault, o)
    | (.ok 0, o) => (some .writeZero, o)
    | (.ok (taken + 1), o) => o.send (bytes.drop (taken + 1))
termination_by bytes.length
decreasing_by
  have := List.length_pos_iff.2 _h
  rw [List.length_drop]
  omega

end Outbox

end TransferDesk
