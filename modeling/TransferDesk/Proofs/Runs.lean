import Mathlib.Data.Finset.Insert
/-!
# Inputs one after the other

A machine takes inputs one after the other, and with each it gives an output and goes to its next
state. `runAll_at` says what the output at a position is. Inputs that leave the state as it is can
be left out, wherever they stand: all other outputs are the same, and so is the state in the end
(`runAll_leaveOut`).
-/

namespace TransferDesk

variable {σ α β : Type}

/-! ## Leaving members of a list out -/

/-- The members of a list, the first of which stands at position `first`, that are not among those
left out. -/
def leaveOutFrom {α : Type} (omitted : Finset ℕ) (first : ℕ) (xs : List α) : List α :=
  ((xs.zipIdx first).filter (·.2 ∉ omitted)).map Prod.fst

/-- The members of a list whose positions are not among those left out. -/
def leaveOut {α : Type} (omitted : Finset ℕ) (xs : List α) : List α :=
  leaveOutFrom omitted 0 xs

section LeaveOut

variable {omitted : Finset ℕ} {first : ℕ}

theorem leaveOutFrom_of_mem (h : first ∈ omitted) (x : α) (xs : List α) :
    leaveOutFrom omitted first (x :: xs) = leaveOutFrom omitted (first + 1) xs := by
  unfold leaveOutFrom
  rw [List.zipIdx_cons, List.filter_cons_of_neg (by simpa using h)]

theorem leaveOutFrom_of_notMem (h : first ∉ omitted) (x : α) (xs : List α) :
    leaveOutFrom omitted first (x :: xs) = x :: leaveOutFrom omitted (first + 1) xs := by
  unfold leaveOutFrom
  rw [List.zipIdx_cons, List.filter_cons_of_pos (by simpa using h), List.map_cons]

end LeaveOut

/-! ## Runs -/

/-- The outputs of a machine and its state in the end. -/
def runAll (next : α → σ → β × σ) : List α → σ → List β × σ
  | [], s => ([], s)
  | x :: xs, s =>
    let (y, s) := next x s
    let (ys, last) := runAll next xs s
    (y :: ys, last)

section Runs

variable (next : α → σ → β × σ)

theorem runAll_cons (x : α) (xs : List α) (s : σ) :
    runAll next (x :: xs) s =
      ((next x s).1 :: (runAll next xs (next x s).2).1, (runAll next xs (next x s).2).2) :=
  rfl

theorem length_runAll (xs : List α) (s : σ) : (runAll next xs s).1.length = xs.length := by
  induction xs generalizing s with
  | nil => rfl
  | cons x xs ih => exact congrArg Nat.succ (ih (next x s).2)

/-- Inputs in two batches are taken as in one, the second in the state in which the first leaves the
machine. -/
theorem runAll_append (xs more : List α) (s : σ) :
    runAll next (xs ++ more) s =
      ((runAll next xs s).1 ++ (runAll next more (runAll next xs s).2).1,
        (runAll next more (runAll next xs s).2).2) := by
  induction xs generalizing s with
  | nil => rfl
  | cons x xs ih =>
    rw [List.cons_append, runAll_cons, ih]
    rfl

/-- The output at a position comes of the input there, in the state in which the inputs before have
left the machine. -/
theorem runAll_at {xs : List α} {i : ℕ} {x : α} (h : xs[i]? = some x) (s : σ) :
    (runAll next xs s).1[i]? = some (next x (runAll next (xs.take i) s).2).1 ∧
      (runAll next (xs.take (i + 1)) s).2 = (next x (runAll next (xs.take i) s).2).2 := by
  rcases List.getElem?_eq_some_iff.1 h with ⟨hi, rfl⟩
  constructor
  · have hlength : (runAll next (xs.take i) s).1.length = i := by
      rw [length_runAll, List.length_take, Nat.min_eq_left hi.le]
    have hsplit : xs = xs.take i ++ xs[i] :: xs.drop (i + 1) := by
      rw [← List.drop_eq_getElem_cons hi, List.take_append_drop]
    conv_lhs => rw [hsplit]
    rw [runAll_append, List.getElem?_append_right hlength.le, hlength, Nat.sub_self]
    rfl
  · rw [List.take_succ_eq_append_getElem hi, runAll_append]
    rfl

variable {next} {omitted : Finset ℕ} (idle : α → β → Prop)

/-- If an input that is idle, by its output, changes nothing, then idle inputs can be left out. -/
theorem runAll_leaveOutFrom (hidle : ∀ x s, idle x (next x s).1 → (next x s).2 = s) (first : ℕ)
    (xs : List α) (s : σ)
    (h : ∀ i x y, first + i ∈ omitted → xs[i]? = some x →
      (runAll next xs s).1[i]? = some y → idle x y) :
    runAll next (leaveOutFrom omitted first xs) s =
      (leaveOutFrom omitted first (runAll next xs s).1, (runAll next xs s).2) := by
  induction xs generalizing first s with
  | nil => rfl
  | cons x xs ih =>
    rw [runAll_cons] at h ⊢
    have htail := ih (first + 1) (next x s).2 fun i z y hi hz hy => by
      apply h (i + 1) z y
      · rwa [Nat.add_comm i 1, ← Nat.add_assoc]
      · rwa [List.getElem?_cons_succ]
      · rwa [List.getElem?_cons_succ]
    by_cases hfirst : first ∈ omitted
    · -- the state is the same for the inputs behind the one that is left out
      have hsame := hidle x s (h 0 x _ hfirst rfl rfl)
      rw [hsame] at htail ⊢
      rw [leaveOutFrom_of_mem hfirst, leaveOutFrom_of_mem hfirst]
      exact htail
    · rw [leaveOutFrom_of_notMem hfirst, leaveOutFrom_of_notMem hfirst, runAll_cons, htail]

theorem runAll_leaveOut (hidle : ∀ x s, idle x (next x s).1 → (next x s).2 = s) (xs : List α)
    (s : σ)
    (h : ∀ i x y, i ∈ omitted → xs[i]? = some x → (runAll next xs s).1[i]? = some y → idle x y) :
    runAll next (leaveOut omitted xs) s =
      (leaveOut omitted (runAll next xs s).1, (runAll next xs s).2) := by
  apply runAll_leaveOutFrom idle hidle 0 xs s
  intro i x y hi
  rw [Nat.zero_add] at hi
  exact h i x y hi

end Runs

end TransferDesk
