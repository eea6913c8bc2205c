import TransferDesk.Keyed
import TransferDesk.Transfer
/-!
# The ledger

A `Ledger` is a table of accounts, each number at most once, and the journal of the transfers made
so far. The table is kept in ascending order of the numbers, so two ledgers with the same accounts
are equal however they were built. Every transfer in the journal has a number of its own, counted
from one.

Outside of `insert`, which builds a ledger, the only change is `post`, which applies a commit: new
balances for some accounts and the transfers that account for them.
-/

namespace TransferDesk

/-- A transfer that has been made. -/
structure JournalEntry where
  number : Nat
  order : TransferOrder
deriving DecidableEq, Repr

/-- The place of an account in a ledger. -/
def Account.key (a : Account) : Int :=
  a.id.toInt

/-- Accounts and the transfers between them. -/
structure Ledger where
  accounts : List Account := []
  /-- The transfers made so far, oldest first. -/
  journal : List JournalEntry := []
  /-- The number of the next transfer. -/
  nextNumber : Nat := 1
  ascending : Keyed.Ascending Account.key accounts := by exact List.Pairwise.nil
deriving DecidableEq, Repr

namespace Ledger

/-- The ledger without accounts. -/
def empty : Ledger := {}

instance : Inhabited Ledger := ⟨empty⟩

/-- The account with a given number. -/
def find? (l : Ledger) (id : AccountId) : Option Account :=
  l.accounts.find? (·.id = id)

/-- How many accounts there are. -/
def size (l : Ledger) : Nat :=
  l.accounts.length

theorem find?_eq_some_iff {l : Ledger} {id : AccountId} {a : Account} :
    l.find? id = some a ↔ a ∈ l.accounts ∧ a.id = id := by
  unfold find?
  constructor
  · intro h
    exact ⟨List.mem_of_find?_eq_some h, by simpa using List.find?_some h⟩
  · rintro ⟨ha, rfl⟩
    cases hf : l.accounts.find? (·.id = a.id) with
    | none => exact absurd (List.find?_eq_none.1 hf a ha) (by simp)
    | some b =>
      have hb := List.mem_of_find?_eq_some hf
      have hid : b.id = a.id := by simpa using List.find?_some hf
      have hkey : b.key = a.key := congrArg Int32.toInt hid
      exact congrArg some (l.ascending.eq_of_key hb ha hkey)

/-! ## Building a ledger -/

/-- The account as the ledger keeps it: its balance at two places, if it fits there. -/
def kept (a : Account) : Account :=
  { a with balance := a.balance.asMoney }

/-- Adds an account. Its number has to be new and its balance may have no more than two places. -/
def insert (l : Ledger) (a : Account) : Except Fault Ledger :=
  if h : ∃ b ∈ l.accounts, b.id = a.id then .error (.duplicateAccount a.id)
  else if a.balance.ExceedsMoney then
    .error (.invalidAmount a.balance.toText "balance must have at most 2 decimal places")
  else
    .ok { l with
      accounts := Keyed.insertBy Account.key (kept a) l.accounts
      ascending := Keyed.ascending_insertBy l.ascending fun b hb he =>
        h ⟨b, hb, Int32.toInt.inj he⟩ }

/-- Enters an account into the ledger at hand, which is written to only when the account has been
accepted. -/
def enter (a : Account) : ExceptT Fault (StateM Ledger) Unit := do
  let after ← MonadExcept.ofExcept ((← get).insert a)
  set after

/-- Adds accounts one after the other, up to the first that is refused. -/
def insertAll (l : Ledger) : List Account → Except Fault Ledger
  | [] => .ok l
  | a :: as =>
    match l.insert a with
    | .error fault => .error fault
    | .ok l => l.insertAll as

/-- The ledger of the given accounts. -/
def ofAccounts (accounts : List Account) : Except Fault Ledger :=
  empty.insertAll accounts

/-! ## Booking transfers -/

/-- An account with the balance that a list of new balances has for it, if it has one. -/
def rebalance (balances : List (AccountId × Decimal)) (a : Account) : Account :=
  match balances.lookup a.id with
  | some balance => { a with balance }
  | none => a

@[simp] theorem id_rebalance (balances : List (AccountId × Decimal)) (a : Account) :
    (rebalance balances a).id = a.id := by
  unfold rebalance
  split <;> rfl

/-- The transfers as journal entries, numbered from `first`. -/
def entries (first : Nat) : List TransferOrder → List JournalEntry
  | [] => []
  | order :: orders => ⟨first, order⟩ :: entries (first + 1) orders

/-- Sets new balances and writes the transfers that led to them into the journal. A balance for an
account that does not exist has no effect. -/
def post (l : Ledger) (balances : List (AccountId × Decimal)) (orders : List TransferOrder) :
    Ledger where
  accounts := l.accounts.map (rebalance balances)
  journal := l.journal ++ entries l.nextNumber orders
  nextNumber := l.nextNumber + orders.length
  ascending := List.pairwise_map.2 (l.ascending.imp fun h => by simpa [Account.key] using h)

/-- After new balances are set, an account is found with its new one. -/
theorem find?_post (l : Ledger) (balances : List (AccountId × Decimal))
    (orders : List TransferOrder) (id : AccountId) :
    (l.post balances orders).find? id = (l.find? id).map (rebalance balances) := by
  unfold find? post
  rw [List.find?_map]
  congr 2
  funext a
  simp

end Ledger

end TransferDesk
