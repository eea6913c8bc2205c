import TransferDesk.Proofs.Bookkeeping
import TransferDesk.Proofs.Desk.Inquiries
/-!
# The ledgers that there can be

A ledger begins empty. Accounts are added to it and it is dealt with, through scopes and at the
desk, in any order. Nothing else changes a ledger, so whatever this keeps holds of every ledger:
balances have two places at most (`Attained.twoPlaces`) and the journal is numbered from one without
a gap (`Attained.numbered`).
-/

namespace TransferDesk

/-- A ledger that has come about from the empty one by adding accounts and by dealings. -/
inductive Ledger.Attained : Ledger → Prop
  | empty : Attained empty
  | insert {l after : Ledger} {a : Account} (h : l.Attained) (hinsert : l.insert a = .ok after) :
    Attained after
  | deal {l : Ledger} (h : l.Attained) (dealing : Dealing) : Attained (l.deal dealing)

namespace Ledger

/-- An account that is added has two places at most. -/
theorem twoPlaces_insert {l after : Ledger} {a : Account} (h : TwoPlaces l.accounts)
    (hinsert : l.insert a = .ok after) : TwoPlaces after.accounts := by
  obtain ⟨hmoney, hmem, -⟩ := insert_eq_ok hinsert
  intro b hb
  rcases (hmem b).1 hb with rfl | hold
  · exact Decimal.scale_asMoney_le hmoney
  · exact h b hold

/-- The journal is not touched where an account is added. -/
theorem Numbered.insert {l after : Ledger} {a : Account} (h : l.Numbered)
    (hinsert : l.insert a = .ok after) : after.Numbered := by
  obtain ⟨-, -, hjournal, hnext⟩ := insert_eq_ok hinsert
  have hhistory : after.history = l.history := by
    unfold history
    rw [hjournal]
  constructor
  · rw [hhistory, hjournal, h.journal]
  · rw [hhistory, hnext, h.nextNumber]

namespace Attained

variable {l : Ledger}

theorem twoPlaces (h : l.Attained) : TwoPlaces l.accounts := by
  induction h with
  | empty =>
    intro a ha
    cases ha
  | insert _ hinsert ih => exact twoPlaces_insert ih hinsert
  | deal _ dealing ih => exact keptByTransfers_twoPlaces.dealAll ih [dealing]

theorem numbered (h : l.Attained) : l.Numbered := by
  induction h with
  | empty => exact ⟨rfl, rfl⟩
  | insert _ hinsert ih => exact ih.insert hinsert
  | deal _ dealing ih => exact ih.deal dealing

theorem insertAll (h : l.Attained) {accounts : List Account} {after : Ledger}
    (hinsert : l.insertAll accounts = .ok after) : after.Attained := by
  induction accounts generalizing l with
  | nil =>
    obtain rfl := Except.ok.inj hinsert
    exact h
  | cons a accounts ih =>
    rw [Ledger.insertAll] at hinsert
    split at hinsert
    · simp at hinsert
    · rename_i next hnext
      exact ih (h.insert hnext) hinsert

/-- A ledger that was built from accounts is one of them. -/
theorem of_ofAccounts {accounts : List Account} (hstart : ofAccounts accounts = .ok l) :
    l.Attained :=
  insertAll .empty hstart

end Attained

end Ledger

end TransferDesk
