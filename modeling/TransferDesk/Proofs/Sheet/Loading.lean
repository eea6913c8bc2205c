import TransferDesk.Proofs.Ledger.Accepting
import TransferDesk.Proofs.Sheet.Accounts
/-!
# All of a sheet or nothing

A sheet is gone through twice. First all its records are read, up to the first that holds no
account; then the accounts are added to a ledger, up to the first whose number is taken. So a record
that holds no account comes first, also if a number is repeated in front of it
(`loads_all_or_nothing`).

Both times the places of balances are counted. What passes in a record passes in the ledger
(`Record.Holds.money`), so that there the numbers are all that can be refused.
-/

namespace TransferDesk.Sheet

variable {sheet : List UInt8} {header : List (List Char)} {rows : List Record} {as : List Account}

/-- What a record holds is money. -/
theorem Record.Holds.money {r : Record} {a : Account} (h : r.Holds header a) :
    ¬ a.balance.ExceedsMoney := by
  obtain ⟨row, -, hconverts⟩ := h.row
  exact Decimal.not_exceedsMoney_iff_value.2 hconverts.cents

theorem Headed.money (h : Headed sheet header rows) (has : accounts sheet = .ok as) :
    ∀ a ∈ as, ¬ a.balance.ExceedsMoney := by
  rw [h.accounts_eq, readAccounts_eq_ok_iff] at has
  clear h
  induction has with
  | nil =>
    intro a ha
    cases ha
  | cons hr _ ih => exact List.forall_mem_cons.2 ⟨hr.money, ih⟩

/-- Where all balances are money, the first account that is refused is the first that repeats a
number. -/
theorem firstRefused_iff_of_money (hmoney : ∀ a ∈ as, ¬ a.balance.ExceedsMoney) {fault : Fault} :
    Ledger.FirstRefused as fault ↔
      ∃ before a after, as = before ++ a :: after ∧ (before.map Account.id).Nodup ∧
        a.id ∈ before.map Account.id ∧ fault = .duplicateAccount a.id := by
  constructor
  · rintro ⟨before, a, after, rfl, hdistinct, -, hduplicate | ⟨-, hexceeds⟩⟩
    · exact ⟨before, a, after, rfl, hdistinct, hduplicate, rfl⟩
    · exact absurd hexceeds (hmoney a (by simp))
  · rintro ⟨before, a, after, rfl, hdistinct, hduplicate, rfl⟩
    refine ⟨before, a, after, rfl, hdistinct, ?_, .duplicate hduplicate⟩
    intro b hb
    exact hmoney b (List.mem_append_left _ hb)

theorem ledger_of_accounts_eq_ok (has : accounts sheet = .ok as) :
    ledger sheet = Ledger.ofAccounts as := by
  unfold ledger
  rw [has]

/-- A sheet is loaded whole or not at all. Take a sheet with a valid header.

* Its accounts are those of all its rows, one for each and in their order, if every row holds one.
Otherwise the first row that holds none is at fault, whatever follows it.
* The ledger of a sheet at fault has that fault, whatever numbers are repeated. The ledger of
accounts with different numbers holds each of them, all as they are but for the places of their
balances, and nothing has been transferred. If a number is repeated, the first account that repeats
one is at fault, and no balance ever is. -/
theorem loads_all_or_nothing (h : Headed sheet header rows) :
    (∀ as, accounts sheet = .ok as ↔ List.Forall₂ (Record.Holds header) rows as) ∧
    (∀ fault, accounts sheet = .error fault ↔
      ∃ before r after, rows = before ++ r :: after ∧ (∀ p ∈ before, ∃ a, p.Holds header a) ∧
        readAccount header r = .error fault) ∧
    (∀ fault, accounts sheet = .error fault → ledger sheet = .error fault.toFault) ∧
    (∀ as, accounts sheet = .ok as →
      ((∃ l, ledger sheet = .ok l) ↔ (as.map Account.id).Nodup) ∧
      (∀ l, ledger sheet = .ok l →
        (∃ kept, l.accounts.Perm kept ∧ List.Forall₂ Account.SameAs as kept) ∧
          l.journal = [] ∧ l.nextNumber = 1) ∧
      (∀ fault, ledger sheet = .error fault ↔
        ∃ before a after, as = before ++ a :: after ∧ (before.map Account.id).Nodup ∧
          a.id ∈ before.map Account.id ∧ fault = .duplicateAccount a.id)) ∧
    ∀ amount reason, ledger sheet ≠ .error (.invalidAmount amount reason) := by
  have hfault (fault : SheetFault) (hfault : accounts sheet = .error fault) :
      ledger sheet = .error fault.toFault := by
    unfold ledger
    rw [hfault]
  -- the balances of accounts that have been read are not refused a second time
  have hrefused (as : List Account) (has : accounts sheet = .ok as) (fault : Fault) :
      ledger sheet = .error fault ↔
        ∃ before a after, as = before ++ a :: after ∧ (before.map Account.id).Nodup ∧
          a.id ∈ before.map Account.id ∧ fault = .duplicateAccount a.id := by
    rw [ledger_of_accounts_eq_ok has, Ledger.ofAccounts_eq_error_iff,
      firstRefused_iff_of_money (h.money has)]
  refine ⟨?_, ?_, hfault, ?_, ?_⟩
  · intro as
    rw [h.accounts_eq, readAccounts_eq_ok_iff]
  · intro fault
    rw [h.accounts_eq, readAccounts_eq_error_iff]
  · intro as has
    refine ⟨?_, ?_, hrefused as has⟩
    · rw [ledger_of_accounts_eq_ok has]
      constructor
      · rintro ⟨l, hl⟩
        exact (Ledger.builtFrom_of_ofAccounts hl).distinct
      · intro hdistinct
        obtain ⟨l, hl, -⟩ := Ledger.exists_builtFrom hdistinct (h.money has)
        exact ⟨l, hl⟩
    · intro l hl
      rw [ledger_of_accounts_eq_ok has] at hl
      have hbuilt := Ledger.builtFrom_of_ofAccounts hl
      refine ⟨⟨as.map Ledger.kept, hbuilt.accounts, ?_⟩, hbuilt.journal, hbuilt.nextNumber⟩
      rw [List.forall₂_map_right_iff, List.forall₂_same]
      intro a _
      exact Ledger.sameAs_kept a
  · intro amount reason hinvalid
    cases has : accounts sheet with
    | error fault =>
      rw [hfault fault has] at hinvalid
      cases hinvalid
    | ok as =>
      obtain ⟨_, _, _, -, -, -, heq⟩ := (hrefused as has _).1 hinvalid
      cases heq

/-- A sheet with three rows: the second repeats the number of the first, and the balance of the
third has three places. -/
def twiceAndPrecise : List UInt8 :=
  Text.Utf8.encode
    ("account_id,customer_id,customer_name,customer_email,account_type,balance,currency\n" ++
    "7,10,Ada,ada@example.com,checking,1.00,USD\n7,11,Ben,,savings,2.50,usd\n" ++
    "8,12,Cleo,,savings,0.005,EUR\n").toList

/-- The two rows with the same number. Each of them holds an account. -/
def twiceRows : List Record :=
  [⟨⟨1, 2, 82⟩, encoded ["7", "10", "Ada", "ada@example.com", "checking", "1.00", "USD"]⟩,
    ⟨⟨2, 3, 125⟩, encoded ["7", "11", "Ben", "", "savings", "2.50", "usd"]⟩]

/-- The row with three places. -/
def preciseRow : Record :=
  ⟨⟨3, 4, 152⟩, encoded ["8", "12", "Cleo", "", "savings", "0.005", "EUR"]⟩

/-- The third row is at fault, although a number is repeated in front of it. -/
theorem twiceAndPrecise_fails_by_places :
    Headed twiceAndPrecise (namesInOrder.map fieldText) (twiceRows ++ [preciseRow]) ∧
      (∀ r ∈ twiceRows, ∃ a, r.Holds (namesInOrder.map fieldText) a) ∧
      ledger twiceAndPrecise = .error (.malformedSheet (some 4)
        "Balance '0.005' for account 8 has more than 2 decimal places") := by
  have hrecords : records twiceAndPrecise =
      ⟨.start, namesInOrder⟩ :: (twiceRows ++ [preciseRow]) := by
    decide +kernel
  have hheaded : Headed twiceAndPrecise (namesInOrder.map fieldText) (twiceRows ++ [preciseRow]) :=
    .header hrecords (by decide +kernel)
  have htwice : ∀ r ∈ twiceRows, ∃ a, r.Holds (namesInOrder.map fieldText) a := by
    have hread : ∀ r ∈ twiceRows, (readAccount (namesInOrder.map fieldText) r).toOption.isSome := by
      decide +kernel
    intro r hr
    have hsome := hread r hr
    cases ha : readAccount (namesInOrder.map fieldText) r with
    | error fault =>
      rw [ha] at hsome
      cases hsome
    | ok a => exact ⟨a, readAccount_eq_ok_iff.1 ha⟩
  -- the third row is read before any number is compared
  have hprecise : readAccount (namesInOrder.map fieldText) preciseRow =
      .error (.row preciseRow.place (.preciseBalance "0.005" 8)) := by
    decide +kernel
  obtain ⟨-, hfirst, hledger, -⟩ := loads_all_or_nothing hheaded
  have haccounts := (hfirst _).2 ⟨twiceRows, preciseRow, [], rfl, htwice, hprecise⟩
  refine ⟨hheaded, htwice, ?_⟩
  rw [hledger _ haccounts]
  decide +kernel

end TransferDesk.Sheet
