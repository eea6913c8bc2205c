import Mathlib.Data.List.Induction
import Mathlib.Data.List.Nodup
import Mathlib.Logic.Function.Basic
import TransferDesk.Roster
/-!
# Tasks that share a roster

Any number of tasks register connections in one roster. To register takes two steps, and the other
tasks go on in between: a number is issued, and then the connection is listed and its guard is
there. A guard can be dropped by whoever has it, and the connection is removed.

`Reception.step?` says what a task can do next. A list of such steps is an interleaving, and what is
true of a connection can be read off it without the roster: that a task is about to list it
(`Arrives`), that it has been listed (`Listed`), and that its guard is still there (`Guarded`).
Every step keeps the reception in agreement with that (`Reception.Agrees`).
-/

namespace TransferDesk

/-- What a task can do with a roster. -/
inductive Roster.Use where
  /-- Begin to register a connection with a peer. -/
  | issue (peer : String)
  /-- List the connection, whose guard is there from then on. -/
  | list
  /-- Drop the guard of the connection with a number. -/
  | drop (number : ℕ)
deriving DecidableEq, Repr

open Roster (Use)

/-- Whether a number is issued. -/
def Roster.Use.isIssue : Use → Bool
  | .issue _ => true
  | _ => false

/-- A roster and the tasks that share it. -/
structure Reception (ι : Type) where
  roster : Roster := {}
  /-- The connection that a task is about to list. -/
  arriving : ι → Option Connection := fun _ => none
  /-- The numbers of the guards that are there. -/
  guards : List ℕ := []
  /-- All numbers that have been issued. -/
  issued : List ℕ := []

namespace Reception

variable {ι : Type} [DecidableEq ι]

/-- The reception after something a task does, if the task can do it. A task that is about to list a
connection does nothing else first. -/
def step? (r : Reception ι) : ι × Use → Option (Reception ι)
  | (i, .issue peer) =>
    match r.arriving i with
    | none =>
      let (number, roster) := r.roster.issue
      some { r with
        roster
        arriving := Function.update r.arriving i (some ⟨number, peer⟩)
        issued := r.issued ++ [number] }
    | some _ => none
  | (i, .list) =>
    match r.arriving i with
    | none => none
    | some c =>
      some { r with
        roster := r.roster.add c
        arriving := Function.update r.arriving i none
        guards := r.guards ++ [c.number] }
  | (i, .drop number) =>
    if r.arriving i = none ∧ number ∈ r.guards then
      some { r with
        roster := r.roster.leave number
        guards := r.guards.filter (· ≠ number) }
    else none

/-- The reception after an interleaving, if all of it is possible. -/
def run? (r : Reception ι) : List (ι × Use) → Option (Reception ι)
  | [] => some r
  | use :: uses => (r.step? use).bind (·.run? uses)

end Reception

section History

variable {ι : Type}

/-- How many numbers are issued. -/
def issues (uses : List (ι × Use)) : ℕ :=
  uses.countP fun u => u.2.isIssue

/-- A task has been issued the number of a connection for its peer, and has done nothing since. -/
def Arrives (uses : List (ι × Use)) (i : ι) (c : Connection) : Prop :=
  ∃ before since, uses = before ++ (i, .issue c.peer) :: since ∧
    c.number = issues before + 1 ∧ ∀ u ∈ since, u.1 ≠ i

/-- A task has listed a connection. -/
def Listed (uses : List (ι × Use)) (c : Connection) : Prop :=
  ∃ i before after, uses = before ++ (i, .list) :: after ∧ Arrives before i c

/-- The guard of a connection is there. -/
def Guarded (uses : List (ι × Use)) (c : Connection) : Prop :=
  Listed uses c ∧ ∀ i, (i, .drop c.number) ∉ uses

/-! ## Interleavings -/

variable {uses : List (ι × Use)} {u : ι × Use} {i : ι} {c d : Connection}

/-- What stands in an interleaving is the last of it or stands in front of that. -/
theorem concat_eq_append_cons_iff {α : Type} {as before after : List α} {a b : α} :
    as ++ [a] = before ++ b :: after ↔
      (as = before ∧ a = b ∧ after = []) ∨
      ∃ between, as = before ++ b :: between ∧ after = between ++ [a] := by
  constructor
  · intro h
    rcases List.eq_nil_or_concat' after with rfl | ⟨between, last, rfl⟩
    · obtain ⟨rfl, hlast⟩ := List.append_inj' h rfl
      exact Or.inl ⟨rfl, List.head_eq_of_cons_eq hlast, rfl⟩
    · rw [← List.cons_append, ← List.append_assoc] at h
      obtain ⟨rfl, hlast⟩ := List.append_inj' h rfl
      obtain rfl := List.head_eq_of_cons_eq hlast
      exact Or.inr ⟨between, rfl, rfl⟩
  · rintro (⟨rfl, rfl, rfl⟩ | ⟨between, rfl, rfl⟩)
    · rfl
    · rw [List.append_assoc, List.cons_append]

theorem issues_concat : issues (uses ++ [u]) = issues uses + if u.2.isIssue then 1 else 0 := by
  rw [issues, List.countP_append, List.countP_singleton]
  rfl

theorem arrives_concat :
    Arrives (uses ++ [u]) i c ↔
      (u = (i, .issue c.peer) ∧ c.number = issues uses + 1) ∨ (u.1 ≠ i ∧ Arrives uses i c) := by
  constructor
  · rintro ⟨before, since, hsplit, hnumber, hsince⟩
    rcases concat_eq_append_cons_iff.1 hsplit with ⟨rfl, rfl, -⟩ | ⟨between, rfl, rfl⟩
    · exact Or.inl ⟨rfl, hnumber⟩
    · refine Or.inr ⟨hsince u (by simp), before, between, rfl, hnumber, ?_⟩
      intro v hv
      exact hsince v (List.mem_append_left _ hv)
  · rintro (⟨rfl, hnumber⟩ | ⟨hother, before, since, rfl, hnumber, hsince⟩)
    · exact ⟨uses, [], rfl, hnumber, by simp⟩
    · refine ⟨before, since ++ [u], by simp, hnumber, ?_⟩
      intro v hv
      rcases List.mem_append.1 hv with hv | hv
      · exact hsince v hv
      · rw [List.mem_singleton.1 hv]
        exact hother

theorem listed_concat :
    Listed (uses ++ [u]) c ↔ Listed uses c ∨ ∃ i, u = (i, .list) ∧ Arrives uses i c := by
  constructor
  · rintro ⟨i, before, after, hsplit, harrives⟩
    rcases concat_eq_append_cons_iff.1 hsplit with ⟨rfl, rfl, -⟩ | ⟨between, rfl, rfl⟩
    · exact Or.inr ⟨i, rfl, harrives⟩
    · exact Or.inl ⟨i, before, between, rfl, harrives⟩
  · rintro (⟨i, before, after, rfl, harrives⟩ | ⟨i, rfl, harrives⟩)
    · exact ⟨i, before, after ++ [u], by simp, harrives⟩
    · exact ⟨i, uses, [], rfl, harrives⟩

theorem guarded_issue {peer : String} :
    Guarded (uses ++ [(i, .issue peer)]) c ↔ Guarded uses c := by
  simp [Guarded, listed_concat]

theorem guarded_list : Guarded (uses ++ [(i, .list)]) c ↔
    Guarded uses c ∨ (Arrives uses i c ∧ ∀ j, (j, .drop c.number) ∉ uses) := by
  simp [Guarded, listed_concat, or_and_right]

theorem guarded_drop {number : ℕ} :
    Guarded (uses ++ [(i, .drop number)]) c ↔ Guarded uses c ∧ c.number ≠ number := by
  simp [Guarded, listed_concat, forall_and, and_assoc]

/-- A number is issued at one place. -/
theorem issue_unique {before before' after after' : List (ι × Use)} {u u' : ι × Use}
    (hu : u.2.isIssue) (hu' : u'.2.isIssue) (h : before ++ u :: after = before' ++ u' :: after')
    (hissues : issues before = issues before') : before = before' ∧ u = u' ∧ after = after' := by
  induction before generalizing before' with
  | nil =>
    cases before' with
    | nil =>
      obtain ⟨rfl, rfl⟩ := List.cons.inj h
      exact ⟨rfl, rfl, rfl⟩
    | cons v vs =>
      -- the first number of all would have been issued before
      obtain ⟨rfl, -⟩ := List.cons.inj h
      simp [issues, hu] at hissues
  | cons v vs ih =>
    cases before' with
    | nil =>
      obtain ⟨rfl, -⟩ := List.cons.inj h
      simp [issues, hu'] at hissues
    | cons w ws =>
      obtain ⟨rfl, hrest⟩ := List.cons.inj h
      simp only [issues, List.countP_cons, Nat.add_right_cancel_iff] at hissues
      obtain ⟨rfl, hsame⟩ := ih hrest hissues
      exact ⟨rfl, hsame⟩

/-- A connection that a task is about to list has another number than those that have been
listed. -/
theorem Arrives.number_ne (hc : Arrives uses i c) (hd : Listed uses d) : d.number ≠ c.number := by
  obtain ⟨before, since, hsplit, hnumber, hsince⟩ := hc
  obtain ⟨j, front, after, rfl, start, between, rfl, hissued, -⟩ := hd
  intro hsame
  have hissues : issues start = issues before := by omega
  rw [List.append_assoc, List.cons_append] at hsplit
  obtain ⟨-, huse, hrest⟩ := issue_unique rfl rfl hsplit hissues
  -- the same task would have listed it since
  obtain rfl : j = i := congrArg Prod.fst huse
  rw [← hrest] at hsince
  exact hsince (j, .list) (by simp) rfl

end History

/-! ## The roster -/

namespace Roster

variable {r : Roster} {c d : Connection} {number : ℕ}

theorem mem_leave : d ∈ (r.leave number).live ↔ d ∈ r.live ∧ d.number ≠ number := by
  simp [leave]

theorem mem_add : d ∈ (r.add c).live ↔ d = c ∨ (d ∈ r.live ∧ d.number ≠ c.number) := by
  rw [← mem_leave]
  exact Keyed.mem_insertBy

/-- A connection with a new number is one more. -/
theorem perm_add (hfresh : ∀ d ∈ r.live, d.number ≠ c.number) :
    (r.add c).live.Perm (c :: r.live) := by
  have hperm : (r.add c).live.Perm (c :: (r.leave c.number).live) := Keyed.perm_insertBy _ _ _
  rwa [live_leave_of_ne hfresh] at hperm

theorem number_lt (r : Roster) : r.live.Pairwise fun c d => c.number < d.number :=
  r.ascending.imp Int.ofNat_lt.1

theorem nodup_numbers (r : Roster) : (r.live.map Connection.number).Nodup := by
  rw [List.Nodup, List.pairwise_map]
  exact r.number_lt.imp Nat.ne_of_lt

theorem find?_eq_some_iff : r.find? number = some c ↔ c ∈ r.live ∧ c.number = number := by
  constructor
  · intro h
    exact ⟨List.mem_of_find?_eq_some h, by simpa using List.find?_some h⟩
  · rintro ⟨hlive, rfl⟩
    obtain ⟨d, hd⟩ : ∃ d, r.find? c.number = some d := by
      rw [← Option.isSome_iff_exists, find?, List.find?_isSome]
      exact ⟨c, hlive, by simp⟩
    have hmem := List.mem_of_find?_eq_some hd
    have hnumber : d.number = c.number := by simpa using List.find?_some hd
    rw [hd, r.ascending.eq_of_key hmem hlive (congrArg Int.ofNat hnumber)]

/-- Only the connection that leaves is not found any more. -/
theorem find?_leave (number other : ℕ) :
    (r.leave number).find? other = if other = number then none else r.find? other := by
  ext c
  rw [find?_eq_some_iff, mem_leave]
  split
  · rename_i hother
    rw [hother]
    simp +contextual
  · rename_i hother
    rw [find?_eq_some_iff]
    constructor
    · rintro ⟨⟨hlive, -⟩, hnumber⟩
      exact ⟨hlive, hnumber⟩
    · rintro ⟨hlive, rfl⟩
      exact ⟨⟨hlive, hother⟩, rfl⟩

/-- Only the connection that is listed is found where it was not. -/
theorem find?_add (c : Connection) (other : ℕ) :
    (r.add c).find? other = if other = c.number then some c else r.find? other := by
  ext d
  rw [find?_eq_some_iff, mem_add]
  split
  · rename_i hother
    rw [hother, Option.some_inj]
    constructor
    · rintro ⟨rfl | ⟨-, hne⟩, hnumber⟩
      · rfl
      · exact absurd hnumber hne
    · rintro rfl
      exact ⟨Or.inl rfl, rfl⟩
  · rename_i hother
    rw [find?_eq_some_iff]
    constructor
    · rintro ⟨rfl | ⟨hlive, -⟩, hnumber⟩
      · exact absurd hnumber.symm hother
      · exact ⟨hlive, hnumber⟩
    · rintro ⟨hlive, rfl⟩
      exact ⟨Or.inr ⟨hlive, hother⟩, rfl⟩

/-- In whatever order the live connections are found, they are shown in the order of their
numbers. -/
theorem snapshot_of_perm {found : List Connection} (h : found.Perm r.live) :
    snapshot found = r.live := by
  have htrans : ∀ c d e : Connection, decide (c.number ≤ d.number) = true →
      decide (d.number ≤ e.number) = true → decide (c.number ≤ e.number) = true := by
    simp only [decide_eq_true_eq]
    omega
  have htotal : ∀ c d : Connection,
      (decide (c.number ≤ d.number) || decide (d.number ≤ c.number)) = true := by
    simp only [Bool.or_eq_true, decide_eq_true_eq]
    omega
  have hsorted : (snapshot found).Pairwise fun c d => c.number ≤ d.number :=
    (List.pairwise_mergeSort htrans htotal found).imp of_decide_eq_true
  have hlive : r.live.Pairwise fun c d => c.number ≤ d.number := r.number_lt.imp Nat.le_of_lt
  have hperm : (snapshot found).Perm r.live := (List.mergeSort_perm _ _).trans h
  refine hperm.eq_of_pairwise ?_ hsorted hlive
  intro c d hc hd hcd hdc
  have hnumber : c.number = d.number := Nat.le_antisymm hcd hdc
  exact r.ascending.eq_of_key (hperm.mem_iff.1 hc) hd (congrArg Int.ofNat hnumber)

end Roster

/-! ## The invariant -/

namespace Reception

variable {ι : Type} {uses : List (ι × Use)} {r : Reception ι}

/-- A reception is what has come of an interleaving. -/
structure Agrees (uses : List (ι × Use)) (r : Reception ι) : Prop where
  nextNumber : r.roster.nextNumber = issues uses + 1
  issued : r.issued = List.range' 1 (issues uses)
  arriving : ∀ i c, r.arriving i = some c ↔ Arrives uses i c
  live : ∀ c, c ∈ r.roster.live ↔ Guarded uses c
  guards : r.guards.Perm (r.roster.live.map Connection.number)
  /-- Only a connection that has been listed has a guard to drop. -/
  dropped : ∀ i number, (i, .drop number) ∈ uses → ∃ c, Listed uses c ∧ c.number = number

namespace Agrees

theorem start : Agrees ([] : List (ι × Use)) {} where
  nextNumber := rfl
  issued := rfl
  arriving i c := by simp [Arrives]
  live c := by simp [Guarded, Listed]
  guards := .refl _
  dropped := by simp

/-- What has been listed stays so. -/
theorem dropped_concat (h : Agrees uses r) {u : ι × Use}
    (hu : ∀ i number, u = (i, .drop number) → ∃ c, Listed uses c ∧ c.number = number) (i : ι)
    (number : ℕ)
    (hdrop : (i, .drop number) ∈ uses ++ [u]) :
    ∃ c, Listed (uses ++ [u]) c ∧ c.number = number := by
  obtain ⟨c, hlisted, hnumber⟩ : ∃ c, Listed uses c ∧ c.number = number := by
    rcases List.mem_append.1 hdrop with hbefore | hnow
    · exact h.dropped i number hbefore
    · exact hu i number (List.mem_singleton.1 hnow).symm
  exact ⟨c, listed_concat.2 (Or.inl hlisted), hnumber⟩

variable [DecidableEq ι]

/-- A number is issued, and its connection is not listed yet. -/
theorem issue (h : Agrees uses r) {i : ι} (peer : String) :
    Agrees (uses ++ [(i, .issue peer)]) { r with
      roster := r.roster.issue.2
      arriving := Function.update r.arriving i (some ⟨r.roster.issue.1, peer⟩)
      issued := r.issued ++ [r.roster.issue.1] } := by
  have hnext : r.roster.issue.1 = issues uses + 1 := h.nextNumber
  have hissues : issues (uses ++ [(i, .issue peer)]) = issues uses + 1 := issues_concat
  constructor
  · rw [hissues, ← h.nextNumber]
    rfl
  · rw [hissues, List.range'_1_concat, h.issued, hnext, Nat.add_comm]
  · intro j c
    rw [arrives_concat, ← h.arriving, hnext]
    by_cases hj : j = i
    · subst hj
      rcases c with ⟨number, other⟩
      simp [eq_comm, and_comm]
    · simp [Function.update_of_ne hj, Ne.symm hj]
  · intro c
    rw [guarded_issue]
    exact h.live c
  · exact h.guards
  · exact h.dropped_concat (by simp)

/-- The connection is listed under a number that no other has or has had. -/
theorem list (h : Agrees uses r) {i : ι} {c : Connection} (harriving : r.arriving i = some c) :
    Agrees (uses ++ [(i, .list)]) { r with
      roster := r.roster.add c
      arriving := Function.update r.arriving i none
      guards := r.guards ++ [c.number] } := by
  have harrives : Arrives uses i c := (h.arriving i c).1 harriving
  have hfresh : ∀ d ∈ r.roster.live, d.number ≠ c.number := by
    intro d hd
    exact harrives.number_ne ((h.live d).1 hd).1
  have hkept : ∀ j, (j, .drop c.number) ∉ uses := by
    intro j hdrop
    obtain ⟨d, hlisted, hnumber⟩ := h.dropped j c.number hdrop
    exact harrives.number_ne hlisted hnumber
  have hissues : issues (uses ++ [(i, .list)]) = issues uses := issues_concat
  constructor
  · rw [hissues]
    exact h.nextNumber
  · rw [hissues]
    exact h.issued
  · intro j d
    rw [arrives_concat, ← h.arriving]
    by_cases hj : j = i
    · subst hj
      simp
    · simp [Function.update_of_ne hj, Ne.symm hj]
  · intro d
    have honly : Arrives uses i d ↔ d = c := by
      rw [← h.arriving, harriving, Option.some_inj, eq_comm]
    rw [Roster.mem_add, guarded_list, honly, ← h.live]
    constructor
    · rintro (rfl | ⟨hd, -⟩)
      · exact Or.inr ⟨rfl, hkept⟩
      · exact Or.inl hd
    · rintro (hd | ⟨rfl, -⟩)
      · exact Or.inr ⟨hd, hfresh d hd⟩
      · exact Or.inl rfl
  · have hlive := (Roster.perm_add hfresh).map Connection.number
    exact (List.perm_append_singleton _ _).trans ((h.guards.cons c.number).trans hlive.symm)
  · exact h.dropped_concat (by simp)

/-- One guard is dropped, and the other connections are listed as before. -/
theorem drop (h : Agrees uses r) {i : ι} {number : ℕ} (hidle : r.arriving i = none)
    (hguard : number ∈ r.guards) :
    Agrees (uses ++ [(i, .drop number)]) { r with
      roster := r.roster.leave number
      guards := r.guards.filter (· ≠ number) } := by
  have hissues : issues (uses ++ [(i, .drop number)]) = issues uses := issues_concat
  constructor
  · rw [hissues]
    exact h.nextNumber
  · rw [hissues]
    exact h.issued
  · intro j c
    rw [arrives_concat, ← h.arriving]
    by_cases hj : j = i
    · subst hj
      simp [hidle]
    · simp [Ne.symm hj]
  · intro c
    rw [Roster.mem_leave, guarded_drop, h.live]
  · have hrest := h.guards.filter fun k => decide (k ≠ number)
    rw [List.filter_map] at hrest
    exact hrest
  · refine h.dropped_concat ?_
    rintro j other hsame
    obtain ⟨-, rfl⟩ : i = j ∧ number = other := by simpa using hsame
    obtain ⟨c, hc, hnumber⟩ := List.mem_map.1 (h.guards.mem_iff.1 hguard)
    exact ⟨c, ((h.live c).1 hc).1, hnumber⟩

/-- Every step keeps the agreement. -/
theorem step (h : Agrees uses r) {use : ι × Use} {next : Reception ι}
    (hnext : r.step? use = some next) :
    Agrees (uses ++ [use]) next := by
  obtain ⟨i, use⟩ := use
  cases use with
  | issue peer =>
    rw [step?] at hnext
    split at hnext
    · obtain rfl := Option.some.inj hnext
      exact h.issue peer
    · cases hnext
  | list =>
    rw [step?] at hnext
    split at hnext
    · cases hnext
    · rename_i c harriving
      obtain rfl := Option.some.inj hnext
      exact h.list harriving
  | drop number =>
    rw [step?, Option.ite_none_right_eq_some] at hnext
    obtain ⟨⟨hidle, hguard⟩, hsame⟩ := hnext
    obtain rfl := Option.some.inj hsame
    exact h.drop hidle hguard

theorem run {before : List (ι × Use)} (h : Agrees before r) {last : Reception ι}
    (hrun : r.run? uses = some last) : Agrees (before ++ uses) last := by
  induction uses generalizing before r with
  | nil =>
    obtain rfl := Option.some.inj hrun
    rw [List.append_nil]
    exact h
  | cons use uses ih =>
    obtain ⟨mid, hmid, hrest⟩ := Option.bind_eq_some_iff.1 hrun
    rw [List.append_cons]
    exact ih (h.step hmid) hrest

end Agrees

/-- The roster of a reception lists the connections whose guards are there. However the tasks that
share it come to their turns:

* The numbers that are issued are one, two, three and so on.
* The roster lists a connection if and only if its guard is there, that is, if the task that was
  issued its number for its peer has gone on to list it and the guard has not been dropped. No
  connection comes back.
* There is one guard for each of them, so the size of the roster is the number of guards. A number
  leads to the connection with that number whose guard is there, and to none if there is no such
  guard.
* In whatever order they are found, the connections are shown in the order of their numbers.
* A task that is not about to list a connection can begin to register one, and is issued the next
  number for it. A task that is about to list a connection can do so, and the connection is found
  from then on. All others are found as before.
* A task that is not about to list a connection can drop any guard that is there. Its connection is
  not found any more, all others are found as before, and those that are about to be listed still
  are. -/
theorem roster_lists_guarded [DecidableEq ι] {uses : List (ι × Use)} {r : Reception ι}
    (hrun : ({} : Reception ι).run? uses = some r) :
    r.issued = List.range' 1 (issues uses) ∧
    (∀ c, c ∈ r.roster.live ↔ Guarded uses c) ∧
    r.guards.Nodup ∧
    (∀ number, number ∈ r.guards ↔ ∃ c, Guarded uses c ∧ c.number = number) ∧
    r.roster.size = r.guards.length ∧
    (∀ number c, r.roster.find? number = some c ↔ Guarded uses c ∧ c.number = number) ∧
    (∀ found, found.Perm r.roster.live →
      (∀ c, c ∈ Roster.snapshot found ↔ Guarded uses c) ∧
      (Roster.snapshot found).Pairwise fun c d => c.number < d.number) ∧
    (∀ i peer, r.arriving i = none →
      ∃ next, r.step? (i, .issue peer) = some next ∧
        next.arriving i = some ⟨issues uses + 1, peer⟩ ∧
        next.roster.live = r.roster.live) ∧
    (∀ i c, r.arriving i = some c →
      ∃ next, r.step? (i, .list) = some next ∧
        next.guards = r.guards ++ [c.number] ∧
        next.roster.find? c.number = some c ∧
        ∀ other, other ≠ c.number → next.roster.find? other = r.roster.find? other) ∧
    ∀ i number, r.arriving i = none → number ∈ r.guards →
      ∃ next, r.step? (i, .drop number) = some next ∧
        next.arriving = r.arriving ∧
        next.roster.find? number = none ∧
        ∀ other, other ≠ number → next.roster.find? other = r.roster.find? other := by
  have h : Agrees uses r := Agrees.start.run hrun
  refine ⟨h.issued, h.live, ?_, ?_, ?_, ?_, ?_, ?_, ?_, ?_⟩
  · exact h.guards.nodup_iff.2 r.roster.nodup_numbers
  · intro number
    rw [h.guards.mem_iff, List.mem_map]
    simp only [h.live]
  · rw [h.guards.length_eq, List.length_map]
    rfl
  · intro number c
    rw [Roster.find?_eq_some_iff, h.live]
  · intro found hfound
    rw [Roster.snapshot_of_perm hfound]
    exact ⟨h.live, r.roster.number_lt⟩
  · intro i peer hidle
    have hnumber : r.roster.issue.1 = issues uses + 1 := h.nextNumber
    rw [← hnumber, step?, hidle]
    exact ⟨_, rfl, Function.update_self _ _ _, rfl⟩
  · intro i c harriving
    rw [step?, harriving]
    refine ⟨_, rfl, rfl, ?_, ?_⟩
    · rw [Roster.find?_add, if_pos rfl]
    · intro other hother
      rw [Roster.find?_add, if_neg hother]
  · intro i number hidle hguard
    refine ⟨_, if_pos ⟨hidle, hguard⟩, rfl, ?_, ?_⟩
    · rw [Roster.find?_leave, if_pos rfl]
    · intro other hother
      rw [Roster.find?_leave, if_neg hother]

/-- The second task lists its connection before the first does, and the guard of the second
connection is dropped before the first is listed. -/
def overtaken : List (ℕ × Use) :=
  [(0, .issue "first"), (1, .issue "second"), (1, .list), (2, .issue "third"), (1, .drop 2),
    (2, .list), (0, .list)]

theorem overtaken_listed :
    ∃ r, ({} : Reception ℕ).run? overtaken = some r ∧
      r.issued = [1, 2, 3] ∧ r.guards = [3, 1] ∧ r.roster.size = 2 ∧
      r.roster.live = [⟨1, "first"⟩, ⟨3, "third"⟩] ∧
      Guarded overtaken ⟨1, "first"⟩ ∧ ¬ Guarded overtaken ⟨2, "second"⟩ ∧
      (Roster.snapshot [⟨3, "third"⟩, ⟨1, "first"⟩]).Pairwise (fun c d => c.number < d.number) ∧
      ∃ next, r.step? (2, .drop 3) = some next ∧
        next.roster.find? 3 = none ∧ next.roster.find? 1 = some ⟨1, "first"⟩ := by
  obtain ⟨r, hrun⟩ : ∃ r, ({} : Reception ℕ).run? overtaken = some r := ⟨_, rfl⟩
  have hreached : (({} : Reception ℕ).run? overtaken).map
      (fun r => (r.roster.live, r.guards, r.arriving 2)) =
        some ([⟨1, "first"⟩, ⟨3, "third"⟩], [3, 1], none) := by
    decide
  rw [hrun, Option.map_some, Option.some_inj, Prod.mk.injEq, Prod.mk.injEq] at hreached
  obtain ⟨hlive, hguards, hidle⟩ := hreached
  obtain ⟨hissued, hiff, -, -, hsize, hfind, hshown, -, -, hdrop⟩ := roster_lists_guarded hrun
  have hfirst : Guarded overtaken ⟨1, "first"⟩ := by
    rw [← hiff, hlive]
    decide
  have hguard : 3 ∈ r.guards := by
    rw [hguards]
    decide
  obtain ⟨next, hnext, -, hgone, hothers⟩ := hdrop 2 3 hidle hguard
  refine ⟨r, hrun, hissued, hguards, ?_, hlive, hfirst, ?_, ?_, next, hnext, hgone, ?_⟩
  · rw [hsize, hguards]
    rfl
  · rw [← hiff, hlive]
    decide
  · refine (hshown _ ?_).2
    rw [hlive]
    exact List.Perm.swap _ _ _
  · rw [hothers 1 (by decide), hfind]
    exact ⟨hfirst, rfl⟩

end Reception

end TransferDesk
