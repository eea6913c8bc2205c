import TransferDesk.Proofs.Decimal.Cents
import TransferDesk.Proofs.Ledger.Accepting
import TransferDesk.Proofs.Ledger.Posting
/-!
# Founding a ledger

A list of accounts makes a ledger if no number stands in it twice and every balance comes to whole
cents. The table of a ledger is in the order of the numbers, so the ledger does not tell in which
order the accounts came (`BuiltFrom.eq_of_perm`). If there is no ledger, the first account that is
refused says why (`founded_in_any_order`). To refuse an account leaves every ledger as it is
(`enter_eq_error_iff`).
-/

namespace TransferDesk

/-- Two lists in order with the same members are equal. -/
theorem Keyed.Ascending.eq_of_perm {α : Type} {key : α → Int} {as bs : List α}
    (ha : Ascending key as) (hb : Ascending key bs) (h : as.Perm bs) : as = bs := by
  refine h.eq_of_pairwise ?_ ha hb
  intro a b _ _ hab hba
  omega

namespace Ledger

/-! ## What is refused -/

theorem refuses_iff {before : List Account} {a : Account} {fault : Fault} :
    Refuses before a fault ↔
      (a.id ∈ before.map Account.id ∧ fault = .duplicateAccount a.id) ∨
      (a.id ∉ before.map Account.id ∧ (¬ ∃ n : ℤ, a.balance.cents = n) ∧
        fault = .invalidAmount a.balance.toText "balance must have at most 2 decimal places") := by
  rw [← Decimal.not_exceedsMoney_iff, not_not]
  constructor
  · rintro (hduplicate | ⟨hfresh, hexceeds⟩)
    · exact Or.inl ⟨hduplicate, rfl⟩
    · exact Or.inr ⟨hfresh, hexceeds, rfl⟩
  · rintro (⟨hduplicate, rfl⟩ | ⟨hfresh, hexceeds, rfl⟩)
    · exact .duplicate hduplicate
    · exact .precise hfresh hexceeds

/-- An account is refused because of the accounts that the ledger has, whatever they come from. -/
theorem insert_eq_error_iff {l : Ledger} {a : Account} {fault : Fault} :
    l.insert a = .error fault ↔ Refuses l.accounts a fault := by
  have htaken : (∃ b ∈ l.accounts, b.id = a.id) ↔
      a.id ∈ l.accounts.map Account.id := List.mem_map.symm
  unfold insert
  constructor
  · intro h
    split at h
    · rename_i hid
      obtain rfl := Except.error.inj h
      exact .duplicate (htaken.1 hid)
    · rename_i hid
      split at h
      · rename_i hexceeds
        obtain rfl := Except.error.inj h
        exact .precise (mt htaken.2 hid) hexceeds
      · cases h
  · rintro (hduplicate | ⟨hfresh, hexceeds⟩)
    · rw [dif_pos (htaken.2 hduplicate)]
    · rw [dif_neg (mt htaken.1 hfresh), if_pos hexceeds]

/-- The ledger at hand is the one with the account, or what it was if there is none. -/
theorem run_enter (l : Ledger) (a : Account) :
    (enter a).run.run l = ((l.insert a).map fun _ => (), (l.insert a).toOption.getD l) := by
  have hset (result : Except Fault Ledger) :
      (MonadExcept.ofExcept result >>= set : ExceptT Fault (StateM Ledger) Unit).run.run l =
        (result.map fun _ => (), result.toOption.getD l) := by
    cases result with
    | error fault => rfl
    | ok after => rfl
  exact hset (l.insert a)

/-- To enter an account leaves the ledger as it is if the account is refused. -/
theorem enter_eq_error_iff {l after : Ledger} {a : Account} {fault : Fault} :
    (enter a).run.run l = (.error fault, after) ↔ after = l ∧ Refuses l.accounts a fault := by
  rw [run_enter, ← insert_eq_error_iff, Prod.mk.injEq]
  cases l.insert a with
  | error found =>
    constructor
    · rintro ⟨hfault, rfl⟩
      exact ⟨rfl, congrArg Except.error (Except.error.inj hfault)⟩
    · rintro ⟨rfl, hfault⟩
      exact ⟨congrArg Except.error (Except.error.inj hfault), rfl⟩
  | ok next =>
    constructor
    · rintro ⟨haccepted, -⟩
      cases haccepted
    · rintro ⟨-, haccepted⟩
      cases haccepted

/-! ## Order of the accounts -/

/-- The accounts of a ledger say what it is, and their order does not. -/
theorem BuiltFrom.eq_of_perm {l m : Ledger} {as bs : List Account} (hl : l.BuiltFrom as)
    (hm : m.BuiltFrom bs) (h : bs.Perm as) : m = l := by
  apply eq_of_fields
  · have hkept : m.accounts.Perm l.accounts :=
      hm.accounts.trans ((h.map kept).trans hl.accounts.symm)
    exact m.ascending.eq_of_perm l.ascending hkept
  · rw [hm.journal, hl.journal]
  · rw [hm.nextNumber, hl.nextNumber]

/-- The same accounts make the same ledger in any other order. -/
theorem BuiltFrom.ofAccounts_of_perm {l : Ledger} {as bs : List Account} (hl : l.BuiltFrom as)
    (h : bs.Perm as) : ofAccounts bs = .ok l := by
  have hdistinct : (bs.map Account.id).Nodup := (h.map Account.id).nodup_iff.2 hl.distinct
  have hmoney : ∀ b ∈ bs, ¬ b.balance.ExceedsMoney := by
    intro b hb
    exact hl.money b (h.mem_iff.1 hb)
  obtain ⟨m, hm, hbuilt⟩ := exists_builtFrom hdistinct hmoney
  rw [hm, hl.eq_of_perm hbuilt h]

/-- Accounts with different numbers make a ledger, if their balances come to whole cents. -/
theorem exists_ofAccounts_iff {as : List Account} :
    (∃ l, ofAccounts as = .ok l) ↔
      (as.map Account.id).Nodup ∧ ∀ a ∈ as, ∃ n : ℤ, a.balance.cents = n := by
  constructor
  · rintro ⟨l, hl⟩
    have hbuilt := builtFrom_of_ofAccounts hl
    exact ⟨hbuilt.distinct, fun a ha => Decimal.not_exceedsMoney_iff.1 (hbuilt.money a ha)⟩
  · rintro ⟨hdistinct, hcents⟩
    obtain ⟨l, hl, -⟩ :=
      exists_builtFrom hdistinct fun a ha => Decimal.not_exceedsMoney_iff.2 (hcents a ha)
    exact ⟨l, hl⟩

/-- A ledger is founded on a list of accounts.

* There is one if and only if the numbers of the accounts differ and all balances are whole numbers
of cents.
* It has the accounts of the list and no others, each with all that is known of it and with a
  balance of the same value, and nothing has been transferred. In any other order the accounts make
  the very same ledger.
* Otherwise the first account at fault says why there is none: it repeats the number of one in front
  of it, whatever its balance is, or else its balance, which is shown as it was given, is no whole
  number of cents.
* Whatever ledger refuses to enter an account, it stays as it was. -/
theorem founded_in_any_order (accounts : List Account) :
    ((∃ l, ofAccounts accounts = .ok l) ↔
      (accounts.map Account.id).Nodup ∧ ∀ a ∈ accounts, ∃ n : ℤ, a.balance.cents = n) ∧
    (∀ l, ofAccounts accounts = .ok l →
      (∃ kept, l.accounts.Perm kept ∧ List.Forall₂ Account.SameAs accounts kept) ∧
      l.journal = [] ∧ l.nextNumber = 1 ∧
      ∀ others : List Account, others.Perm accounts → ofAccounts others = .ok l) ∧
    (∀ fault, ofAccounts accounts = .error fault ↔
      ∃ (before : List Account) (a : Account) (after : List Account),
        accounts = before ++ a :: after ∧ (before.map Account.id).Nodup ∧
        (∀ b ∈ before, ∃ n : ℤ, b.balance.cents = n) ∧
        ((a.id ∈ before.map Account.id ∧ fault = .duplicateAccount a.id) ∨
        (a.id ∉ before.map Account.id ∧ (¬ ∃ n : ℤ, a.balance.cents = n) ∧
          fault = .invalidAmount a.balance.toText "balance must have at most 2 decimal places"))) ∧
    ∀ (l : Ledger) a fault after, (enter a).run.run l = (.error fault, after) → after = l := by
  refine ⟨exists_ofAccounts_iff, ?_, ?_, ?_⟩
  · intro l hl
    have hbuilt := builtFrom_of_ofAccounts hl
    refine ⟨⟨accounts.map kept, hbuilt.accounts, ?_⟩, hbuilt.journal, hbuilt.nextNumber, ?_⟩
    · rw [List.forall₂_map_right_iff, List.forall₂_same]
      intro a _
      exact sameAs_kept a
    · intro others hperm
      exact hbuilt.ofAccounts_of_perm hperm
  · intro fault
    rw [ofAccounts_eq_error_iff]
    unfold FirstRefused
    simp only [refuses_iff, Decimal.not_exceedsMoney_iff]
  · intro l a fault after h
    exact (enter_eq_error_iff.1 h).1

/-- Three accounts that are not in the order of their numbers, one of them in debt. The first
balance is written with a place more than it needs. -/
def newcomers : List Account :=
  [{ id := 30, balance := Decimal.ofParts 12500 3, currency := "USD" },
    { id := 10, balance := Decimal.ofParts (-7) 0, currency := "EUR", customerName := "Ada" },
    { id := 20, balance := Decimal.ofParts 1 2, currency := "USD" }]

/-- An account with a number that is taken, and with half a cent. -/
def impostor : Account :=
  { id := 10, balance := Decimal.ofParts 5 3, currency := "USD" }

/-- The three make one ledger forwards and backwards. With the fourth they make none, because of the
number. -/
theorem newcomers_founded :
    ∃ l, ofAccounts newcomers = .ok l ∧ ofAccounts newcomers.reverse = .ok l ∧
      l.accounts.map Account.id = [10, 20, 30] ∧
      (∃ kept, l.accounts.Perm kept ∧ List.Forall₂ Account.SameAs newcomers kept) ∧
      ofAccounts (newcomers ++ [impostor]) = .error (.duplicateAccount 10) ∧
      ∃ fault after, (enter impostor).run.run l = (.error fault, after) ∧ after = l := by
  have hok : ∃ l, ofAccounts newcomers = .ok l ∧ l.accounts.map Account.id = [10, 20, 30] := by
    refine ⟨(ofAccounts newcomers).toOption.getD empty, ?_⟩
    decide +kernel
  obtain ⟨l, hl, hids⟩ := hok
  obtain ⟨hiff, hmade, -, hsame⟩ := founded_in_any_order newcomers
  obtain ⟨hdistinct, hcents⟩ := hiff.1 ⟨l, hl⟩
  obtain ⟨hkept, -, -, hany⟩ := hmade l hl
  have henter : (enter impostor).run.run l = (.error (.duplicateAccount 10), l) := by
    refine enter_eq_error_iff.2 ⟨rfl, .duplicate ?_⟩
    rw [hids]
    decide
  refine ⟨l, hl, hany _ (List.reverse_perm newcomers), hids, hkept, ?_, ?_⟩
  · refine ((founded_in_any_order (newcomers ++ [impostor])).2.2.1 _).2 ?_
    refine ⟨newcomers, impostor, [], rfl, hdistinct, hcents, Or.inl ⟨?_, rfl⟩⟩
    decide
  · exact ⟨_, l, henter, hsame l impostor _ l henter⟩

end Ledger

end TransferDesk
