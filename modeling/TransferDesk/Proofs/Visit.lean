import TransferDesk.Proofs.Ledger.Posting
import TransferDesk.Proofs.Scope.Shown
/-!
# Visits

A `Visit` is the use of a ledger through one scope: how the scope is opened, the statements that are
run in it, whether they succeed or not, and how it is ended. Every ledger that is reached from
another one through scopes is reached by a list of visits.

`KeptByTransfers.visitAll` says that visits keep whatever every transfer keeps, and
`KeptByTransfers.of_mem_visitAll` the same of the scopes that the visits pass through.
-/

namespace TransferDesk

open Scope (KeptByTransfers)

/-- One use of a ledger through a scope. -/
structure Visit where
  access : Access
  statements : List Statement
  closing : Closing
deriving Repr

/-- What came of a visit. -/
structure Visit.Log where
  observations : List Scope.Observation
  ending : Except Fault Unit

/-- What a statement was refused with, if it was. -/
def Scope.Observation.fault? (o : Scope.Observation) : Option Fault :=
  match o.answer with
  | .ok _ => none
  | .error fault => some fault

namespace Ledger

/-- The transfers made so far, oldest first. -/
def history (l : Ledger) : List TransferOrder :=
  l.journal.map JournalEntry.order

/-- The scope of a visit before it is ended. -/
def openScope (l : Ledger) (v : Visit) : Scope :=
  ((Scope.begin l v.access).observe v.statements).2

/-- Makes a visit. -/
def visit (l : Ledger) (v : Visit) : Visit.Log × Ledger :=
  let (observations, s) := (Scope.begin l v.access).observe v.statements
  let (ending, after) := s.close v.closing
  (⟨observations, ending⟩, after)

/-- Makes visits one after the other. -/
def visitAll (l : Ledger) : List Visit → List Visit.Log × Ledger
  | [] => ([], l)
  | v :: vs =>
    let (log, l) := l.visit v
    let (logs, last) := l.visitAll vs
    (log :: logs, last)

end Ledger

namespace Scope

variable {P : List Account → List TransferOrder → Prop}

/-- A scope leaves its ledger as it was, or posts to it all that was staged. -/
theorem close_eq (s : Scope) (closing : Closing) :
    (s.close closing).2 = s.ledger ∨ (s.close closing).2 = s.ledger.post s.balances s.orders := by
  cases closing with
  | commit =>
    by_cases habort : s.aborted = true
    · left
      simp only [close, commit, if_pos habort]
    · right
      simp only [close, commit, if_neg habort]
  | rollback => exact Or.inl rfl
  | abandon => exact Or.inl rfl

/-- A scope leaves its ledger as it was, or with all that the scope shows. -/
theorem close_cases (s : Scope) (closing : Closing) :
    (s.close closing).2 = s.ledger ∨
      (s.close closing).2.accounts = s.shown ∧ (s.close closing).2.history = s.history := by
  have hpost : (s.ledger.post s.balances s.orders).history = s.history := by
    simp only [Ledger.history, Ledger.post, history, List.map_append, Ledger.map_order_entries]
  rcases s.close_eq closing with hsame | hposted
  · exact Or.inl hsame
  · right
    rw [hposted]
    exact ⟨rfl, hpost⟩

theorem ledger_run (s : Scope) (q : Statement) : (s.run q).2.ledger = s.ledger := by
  rcases run_cases s q with hs | hs | ⟨order, source, target, p, -, -, hs⟩ <;> rw [hs]
  rfl

theorem ledger_observe (s : Scope) (qs : List Statement) :
    (s.observe qs).2.ledger = s.ledger := by
  induction qs generalizing s with
  | nil => rfl
  | cons q qs ih => exact (ih _).trans (ledger_run s q)

theorem KeptByTransfers.openScope (hP : KeptByTransfers P) {l : Ledger}
    (h : P l.accounts l.history) (v : Visit) :
    P (l.openScope v).shown (l.openScope v).history := by
  refine hP.observe ?_ v.statements
  rw [shown_begin, history_begin]
  exact h

theorem KeptByTransfers.visit (hP : KeptByTransfers P) {l : Ledger}
    (h : P l.accounts l.history) (v : Visit) :
    P (l.visit v).2.accounts (l.visit v).2.history := by
  have hopen := hP.openScope h v
  change P ((l.openScope v).close v.closing).2.accounts ((l.openScope v).close v.closing).2.history
  rcases close_cases (l.openScope v) v.closing with hc | ⟨ha, hh⟩
  · have hl : (l.openScope v).ledger = l := ledger_observe _ _
    rw [hc, hl]
    exact h
  · rw [ha, hh]
    exact hopen

theorem KeptByTransfers.visitAll (hP : KeptByTransfers P) {l : Ledger}
    (h : P l.accounts l.history) (vs : List Visit) :
    P (l.visitAll vs).2.accounts (l.visitAll vs).2.history := by
  induction vs generalizing l with
  | nil => exact h
  | cons v vs ih => exact ih (hP.visit h v)

/-- Whatever is observed in visits was answered by a scope that keeps what transfers keep. -/
theorem KeptByTransfers.of_mem_visitAll (hP : KeptByTransfers P) {l : Ledger}
    (h : P l.accounts l.history) {vs : List Visit} {log : Visit.Log} {o : Observation}
    (hlog : log ∈ (l.visitAll vs).1) (ho : o ∈ log.observations) :
    ∃ mid : Scope, P mid.shown mid.history ∧
      o = ⟨o.statement, (mid.run o.statement).1, (mid.run o.statement).2.isDirty⟩ := by
  induction vs generalizing l with
  | nil => simp [Ledger.visitAll] at hlog
  | cons v vs ih =>
    rcases List.mem_cons.1 hlog with rfl | hlog
    · refine hP.of_mem_observe (s := Scope.begin l v.access) ?_ ho
      rw [shown_begin, history_begin]
      exact h
    · exact ih (hP.visit h v) hlog

end Scope

end TransferDesk
