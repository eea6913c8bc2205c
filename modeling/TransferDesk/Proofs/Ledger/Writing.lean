import Mathlib.Data.List.Nodup
import TransferDesk.Proofs.Ledger.Posting
import TransferDesk.Proofs.Scope.Shown
/-!
# Posting by single writes

`Ledger.post` says at once what becomes of a ledger when balances and transfers are posted.
`Ledger.postEach` gets there by single writes: the balances one after the other, then the transfers
one after the other.

Two writes to different accounts can be made in either order (`writeBalance_comm`). So balances that
are all of different accounts can be written in any order (`writeBalances_perm`), and what the
writes come to is what is posted at once (`postEach_eq_post`). To post does not depend on the order
of the balances either, then (`post_perm`).
-/

namespace TransferDesk

/-- An account after a balance has been written for the account of some number. -/
def Account.written (id : AccountId) (balance : Decimal) (a : Account) : Account :=
  if a.id = id then { a with balance } else a

@[simp] theorem Account.id_written (id : AccountId) (balance : Decimal) (a : Account) :
    (a.written id balance).id = a.id := by
  unfold written
  split <;> rfl

namespace Ledger

/-- Writes a new balance. Nothing happens if there is no account with the number. -/
def writeBalance (l : Ledger) (id : AccountId) (balance : Decimal) : Ledger :=
  { l with
    accounts := l.accounts.map (Account.written id balance)
    ascending := List.pairwise_map.2 (l.ascending.imp fun h => by simpa [Account.key] using h) }

/-- Writes a transfer into the journal, under the next number. -/
def writeOrder (l : Ledger) (order : TransferOrder) : Ledger :=
  { l with
    journal := l.journal ++ [⟨l.nextNumber, order⟩]
    nextNumber := l.nextNumber + 1 }

/-- Writes new balances in the order in which they come. -/
def writeBalances (l : Ledger) (balances : List (AccountId × Decimal)) : Ledger :=
  balances.foldl (fun l entry => l.writeBalance entry.1 entry.2) l

/-- Posts by single writes. -/
def postEach (l : Ledger) (balances : List (AccountId × Decimal)) (orders : List TransferOrder) :
    Ledger :=
  orders.foldl writeOrder (l.writeBalances balances)

/-! ## The order of the writes -/

/-- Two accounts can be written in either order. -/
theorem writeBalance_comm (l : Ledger) {id other : AccountId} (hne : id ≠ other)
    (balance balance' : Decimal) :
    (l.writeBalance id balance).writeBalance other balance' =
      (l.writeBalance other balance').writeBalance id balance := by
  apply eq_of_fields
  · show (l.accounts.map (Account.written id balance)).map (Account.written other balance') =
      (l.accounts.map (Account.written other balance')).map (Account.written id balance)
    rw [List.map_map, List.map_map]
    apply List.map_congr_left
    intro a _
    show (a.written id balance).written other balance' =
      (a.written other balance').written id balance
    unfold Account.written
    by_cases hid : a.id = id
    · have hother : a.id ≠ other := hid ▸ hne
      simp only [if_pos hid, if_neg hother]
    · by_cases hother : a.id = other
      · simp only [if_pos hother, if_neg hid]
      · simp only [if_neg hid, if_neg hother]
  · rfl
  · rfl

/-- If no account is written twice, the order of the writes does not matter. -/
theorem writeBalances_perm (l : Ledger) {balances reordered : List (AccountId × Decimal)}
    (honce : (balances.map Prod.fst).Nodup) (hperm : reordered.Perm balances) :
    l.writeBalances reordered = l.writeBalances balances := by
  refine (hperm.symm.foldl_eq' ?_ l).symm
  intro entry hentry other hother l
  by_cases hkey : entry.1 = other.1
  · -- entries of one account are one entry
    rw [List.inj_on_of_nodup_map honce hentry hother hkey]
  · exact l.writeBalance_comm hkey entry.2 other.2

/-! ## Writing and posting -/

theorem writeBalance_eq_post (l : Ledger) (id : AccountId) (balance : Decimal) :
    l.writeBalance id balance = l.post [(id, balance)] [] := by
  apply eq_of_fields
  · apply List.map_congr_left
    intro a _
    unfold Account.written rebalance
    by_cases hid : a.id = id
    · simp [hid]
    · have hkey : (a.id == id) = false := by simpa using hid
      simp [List.lookup_cons, hid, hkey]
  · exact (List.append_nil l.journal).symm
  · rfl

theorem writeOrder_eq_post (l : Ledger) (order : TransferOrder) :
    l.writeOrder order = l.post [] [order] := by
  apply eq_of_fields
  · exact (List.map_id l.accounts).symm
  · rfl
  · rfl

/-- A balance that is written before others stays, if none of the others is of the same account. -/
theorem rebalance_cons {id : AccountId} {balances : List (AccountId × Decimal)}
    (hfresh : id ∉ balances.map Prod.fst) (balance : Decimal) (a : Account) :
    rebalance ((id, balance) :: balances) a = rebalance balances (rebalance [(id, balance)] a) := by
  rw [Scope.rebalance_eq, Scope.rebalance_eq balances, Scope.rebalance_eq [(id, balance)]]
  by_cases hid : a.id = id
  · have hnone : balances.lookup id = none := by
      rw [List.lookup_eq_none_iff]
      intro entry hentry
      rw [bne_iff_ne]
      rintro rfl
      exact hfresh (List.mem_map_of_mem hentry)
    simp [hid, hnone]
  · have hkey : (a.id == id) = false := by simpa using hid
    simp [List.lookup_cons, hkey]

theorem writeBalances_eq_post (l : Ledger) {balances : List (AccountId × Decimal)}
    (honce : (balances.map Prod.fst).Nodup) : l.writeBalances balances = l.post balances [] := by
  induction balances generalizing l with
  | nil => exact l.post_nil.symm
  | cons entry balances ih =>
    rw [List.map_cons, List.nodup_cons] at honce
    show (l.writeBalance entry.1 entry.2).writeBalances balances = _
    rw [ih _ honce.2, writeBalance_eq_post]
    exact l.post_post (rebalance_cons honce.1 entry.2) [] []

theorem foldl_writeOrder_eq_post (l : Ledger) (orders : List TransferOrder) :
    orders.foldl writeOrder l = l.post [] orders := by
  induction orders generalizing l with
  | nil => exact l.post_nil.symm
  | cons order orders ih =>
    show orders.foldl writeOrder (l.writeOrder order) = _
    rw [ih, writeOrder_eq_post]
    exact l.post_post (fun _ => rfl) [order] orders

/-- If no account is written twice, the writes come to what is posted at once. -/
theorem postEach_eq_post (l : Ledger) {balances : List (AccountId × Decimal)}
    (honce : (balances.map Prod.fst).Nodup) (orders : List TransferOrder) :
    l.postEach balances orders = l.post balances orders := by
  unfold postEach
  rw [writeBalances_eq_post l honce, foldl_writeOrder_eq_post]
  exact l.post_post (fun _ => rfl) [] orders

theorem postEach_perm (l : Ledger) {balances reordered : List (AccountId × Decimal)}
    (honce : (balances.map Prod.fst).Nodup) (hperm : reordered.Perm balances)
    (orders : List TransferOrder) : l.postEach reordered orders = l.postEach balances orders := by
  unfold postEach
  rw [writeBalances_perm l honce hperm]

/-- To post does not depend on the order of the balances. -/
theorem post_perm (l : Ledger) {balances reordered : List (AccountId × Decimal)}
    (honce : (balances.map Prod.fst).Nodup) (hperm : reordered.Perm balances)
    (orders : List TransferOrder) : l.post reordered orders = l.post balances orders := by
  have hreordered : (reordered.map Prod.fst).Nodup := (hperm.map Prod.fst).nodup_iff.2 honce
  rw [← postEach_eq_post l hreordered, ← postEach_eq_post l honce, postEach_perm l honce hperm]

end Ledger

end TransferDesk
