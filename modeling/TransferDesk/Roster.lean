import TransferDesk.Keyed
/-!
# The roster of connections

A `Roster` is the connection registry: it lists the connections that are live, each with a number
and its peer. When a connection was made is not kept. Numbers are issued in order from one and never
twice. A connection becomes live in two steps, first its number is issued and then it is listed, so
other connections may be listed or removed in between. The list is ascending all the same. A
connection is removed when the guard that came with its number is dropped.
-/

namespace TransferDesk

/-- A live connection. -/
structure Connection where
  number : Nat
  peer : String
deriving DecidableEq, Repr

/-- The place of a connection in a roster. -/
def Connection.key (c : Connection) : Int :=
  c.number

/-- The live connections and the next number to issue. -/
structure Roster where
  live : List Connection := []
  nextNumber : Nat := 1
  ascending : Keyed.Ascending Connection.key live := by exact List.Pairwise.nil
deriving DecidableEq, Repr

namespace Roster

/-- How many connections are live. -/
def size (r : Roster) : Nat :=
  r.live.length

/-- The live connection with a given number. -/
def find? (r : Roster) (number : Nat) : Option Connection :=
  r.live.find? (·.number = number)

/-- The connections that are found in a roster, in the order of their numbers. -/
def snapshot (found : List Connection) : List Connection :=
  found.mergeSort fun c d => c.number ≤ d.number

/-- Issues the next number. -/
def issue (r : Roster) : Nat × Roster :=
  (r.nextNumber, { r with nextNumber := r.nextNumber + 1 })

/-- Removes the connection with a given number, if it is live. -/
def leave (r : Roster) (number : Nat) : Roster where
  live := r.live.filter (·.number ≠ number)
  nextNumber := r.nextNumber
  ascending := r.ascending.filter _

/-- Nothing is removed if no live connection has the number. -/
theorem live_leave_of_ne {r : Roster} {number : Nat} (h : ∀ c ∈ r.live, c.number ≠ number) :
    (r.leave number).live = r.live := by
  apply List.filter_eq_self.2
  intro c hc
  exact decide_eq_true (h c hc)

/-- Lists a connection, in the place of a live one with the same number. -/
def add (r : Roster) (c : Connection) : Roster where
  live := Keyed.insertBy Connection.key c (r.leave c.number).live
  nextNumber := r.nextNumber
  ascending := Keyed.ascending_insertBy (r.leave c.number).ascending fun b hb h => by
    have := (List.mem_filter.1 hb).2
    simp only [Connection.key] at h
    simp only [ne_eq, decide_not, Bool.not_eq_eq_eq_not, Bool.not_true, decide_eq_false_iff_not]
      at this
    omega

/-- Lists a connection under the next number. -/
def enter (r : Roster) (peer : String) : Roster :=
  let (number, r) := r.issue
  r.add ⟨number, peer⟩

end Roster

end TransferDesk
