import Mathlib.Data.List.Induction
import TransferDesk.Ledger
import TransferDesk.Proofs.Decimal.Value
/-!
# Which accounts make a ledger

Accounts are added one after the other, and the first that is refused ends it. An account is refused
because of its number, if an account in front of it has that number, and otherwise because of its
balance, if that has more than two places (`Ledger.Refuses`).

So there is a ledger of a list of accounts, which holds each of them (`Ledger.BuiltFrom`), or there
is a first account that is refused (`Ledger.ofAccounts_cases`).
-/

namespace TransferDesk

/-- The same account, whose balance may be written with other places. -/
structure Account.SameAs (a b : Account) : Prop where
  fields : b = { a with balance := b.balance }
  value : b.balance.value = a.balance.value

namespace Ledger

/-- An account is kept as it is, with its balance at the places of money. -/
theorem sameAs_kept (a : Account) : a.SameAs (kept a) where
  fields := rfl
  value := Decimal.value_asMoney a.balance

/-- What an account that comes behind others is refused for. A number that is taken comes first. -/
inductive Refuses (before : List Account) (a : Account) : Fault → Prop
  | duplicate (h : a.id ∈ before.map Account.id) : Refuses before a (.duplicateAccount a.id)
  | precise (h : a.id ∉ before.map Account.id) (hexceeds : a.balance.ExceedsMoney) :
    Refuses before a (.invalidAmount a.balance.toText "balance must have at most 2 decimal places")

/-- An account is refused for one reason. -/
theorem Refuses.unique {before : List Account} {a : Account} {f g : Fault} (hf : Refuses before a f)
    (hg : Refuses before a g) : f = g := by
  rcases hf with hf | ⟨hf, -⟩ <;> rcases hg with hg | ⟨hg, -⟩
  · rfl
  · exact absurd hf hg
  · exact absurd hg hf
  · rfl

/-- The ledger holds the accounts of a list, each of which can be added behind those in front of it.
Nothing has been transferred. -/
structure BuiltFrom (l : Ledger) (as : List Account) : Prop where
  accounts : l.accounts.Perm (as.map kept)
  journal : l.journal = []
  nextNumber : l.nextNumber = 1
  distinct : (as.map Account.id).Nodup
  money : ∀ a ∈ as, ¬ a.balance.ExceedsMoney

/-- The accounts of the ledger have the numbers of the list. -/
theorem BuiltFrom.exists_id_iff {l : Ledger} {as : List Account} (h : l.BuiltFrom as)
    (id : AccountId) :
    (∃ b ∈ l.accounts, b.id = id) ↔ id ∈ as.map Account.id := by
  constructor
  · rintro ⟨b, hb, rfl⟩
    obtain ⟨a, ha, rfl⟩ := List.mem_map.1 (h.accounts.mem_iff.1 hb)
    exact List.mem_map.2 ⟨a, ha, rfl⟩
  · intro hid
    obtain ⟨a, ha, rfl⟩ := List.mem_map.1 hid
    exact ⟨kept a, h.accounts.mem_iff.2 (List.mem_map.2 ⟨a, ha, rfl⟩), rfl⟩

/-- An account behind those of the ledger is added or refused. -/
theorem BuiltFrom.insert_cases {l : Ledger} {as : List Account} (h : l.BuiltFrom as) (a : Account) :
    (∃ after, l.insert a = .ok after ∧ after.BuiltFrom (as ++ [a])) ∨
      ∃ f, l.insert a = .error f ∧ Refuses as a f := by
  have htaken := h.exists_id_iff a.id
  unfold insert
  split
  · rename_i hid
    right
    exact ⟨_, rfl, .duplicate (htaken.1 hid)⟩
  · rename_i hid
    have hfresh : a.id ∉ as.map Account.id := mt htaken.2 hid
    split
    · rename_i hexceeds
      right
      exact ⟨_, rfl, .precise hfresh hexceeds⟩
    · rename_i hmoney
      left
      refine ⟨_, rfl, ?_⟩
      constructor
      · have hperm :=
          (Keyed.perm_insertBy Account.key (kept a) l.accounts).trans (h.accounts.cons (kept a))
        rw [List.map_append]
        exact hperm.trans (List.perm_append_singleton (kept a) (as.map kept)).symm
      · exact h.journal
      · exact h.nextNumber
      · rw [List.map_append]
        refine List.nodup_append'.2 ⟨h.distinct, List.nodup_singleton _, ?_⟩
        simpa using hfresh
      · intro b hb
        rcases List.mem_append.1 hb with hb | hb
        · exact h.money b hb
        · obtain rfl := List.mem_singleton.1 hb
          exact hmoney

/-- The first account of a list that is refused, and the fault. The list in front of it makes a
ledger. -/
def FirstRefused (as : List Account) (f : Fault) : Prop :=
  ∃ before a after, as = before ++ a :: after ∧ (before.map Account.id).Nodup ∧
    (∀ b ∈ before, ¬ b.balance.ExceedsMoney) ∧ Refuses before a f

theorem insertAll_append (l : Ledger) (as bs : List Account) :
    l.insertAll (as ++ bs) =
      match l.insertAll as with
      | .error f => .error f
      | .ok next => next.insertAll bs := by
  induction as generalizing l with
  | nil => rfl
  | cons a as ih =>
    rw [List.cons_append, insertAll, insertAll]
    cases l.insert a with
    | error f => rfl
    | ok next => exact ih next

/-- A list of accounts makes a ledger that holds them, or one of them is the first to be refused. -/
theorem ofAccounts_cases (as : List Account) :
    (∃ l, ofAccounts as = .ok l ∧ l.BuiltFrom as) ∨
      ∃ f, ofAccounts as = .error f ∧ FirstRefused as f := by
  -- accounts are added in front to back, so the last one is added to the ledger of those before it
  induction as using List.reverseRecOn with
  | nil => exact Or.inl ⟨empty, rfl, List.Perm.refl _, rfl, rfl, List.nodup_nil, by simp⟩
  | append_singleton as a ih =>
    have happend : ofAccounts (as ++ [a]) =
        match ofAccounts as with
        | .error f => .error f
        | .ok l => l.insertAll [a] := insertAll_append empty as [a]
    rw [happend]
    rcases ih with ⟨l, hl, hbuilt⟩ | ⟨f, hf, before, b, after, rfl, hrefused⟩
    · rw [hl]
      simp only [insertAll]
      rcases hbuilt.insert_cases a with ⟨next, hnext, hmore⟩ | ⟨f, hf, hrefuses⟩
      · left
        rw [hnext]
        exact ⟨next, rfl, hmore⟩
      · right
        rw [hf]
        exact ⟨f, rfl, as, a, [], rfl, hbuilt.distinct, hbuilt.money, hrefuses⟩
    · -- the list in front has been refused already, and nothing behind it changes that
      right
      rw [hf]
      exact ⟨f, rfl, before, b, after ++ [a], by simp, hrefused⟩

/-- A list whose accounts can all be added has no first one that is refused. -/
theorem not_firstRefused {as : List Account} {f : Fault} (hdistinct : (as.map Account.id).Nodup)
    (hmoney : ∀ a ∈ as, ¬ a.balance.ExceedsMoney) : ¬ FirstRefused as f := by
  rintro ⟨before, a, after, rfl, -, -, hduplicate | ⟨-, hexceeds⟩⟩
  · rw [List.map_append, List.map_cons] at hdistinct
    exact (List.nodup_append'.1 hdistinct).2.2 hduplicate List.mem_cons_self
  · exact hmoney a (by simp) hexceeds

/-- Accounts with different numbers and no more than two places make a ledger. -/
theorem exists_builtFrom {as : List Account} (hdistinct : (as.map Account.id).Nodup)
    (hmoney : ∀ a ∈ as, ¬ a.balance.ExceedsMoney) :
    ∃ l, ofAccounts as = .ok l ∧ l.BuiltFrom as := by
  rcases ofAccounts_cases as with hok | ⟨f, -, hrefused⟩
  · exact hok
  · exact absurd hrefused (not_firstRefused hdistinct hmoney)

/-- What a ledger is built from. -/
theorem builtFrom_of_ofAccounts {as : List Account} {l : Ledger} (h : ofAccounts as = .ok l) :
    l.BuiltFrom as := by
  rcases ofAccounts_cases as with ⟨l', hl', hbuilt⟩ | ⟨f, hf, -⟩
  · rw [h] at hl'
    exact Except.ok.inj hl' ▸ hbuilt
  · rw [h] at hf
    cases hf

/-- A list makes no ledger if and only if one of its accounts is the first to be refused, and then
for that reason. -/
theorem ofAccounts_eq_error_iff {as : List Account} {f : Fault} :
    ofAccounts as = .error f ↔ FirstRefused as f := by
  constructor
  · intro h
    rcases ofAccounts_cases as with ⟨l, hl, -⟩ | ⟨g, hg, hrefused⟩
    · rw [h] at hl
      cases hl
    · rw [h] at hg
      exact Except.error.inj hg ▸ hrefused
  · rintro ⟨before, a, after, rfl, hdistinct, hmoney, hrefuses⟩
    obtain ⟨l, hl, hbuilt⟩ := exists_builtFrom hdistinct hmoney
    have hbefore : empty.insertAll before = .ok l := hl
    rw [ofAccounts, insertAll_append, hbefore]
    simp only [insertAll]
    -- the account cannot have been added: then the list would have no first one that is refused
    rcases hbuilt.insert_cases a with ⟨next, -, hnext⟩ | ⟨g, hg, hrefuses'⟩
    · exact absurd ⟨before, a, [], rfl, hdistinct, hmoney, hrefuses⟩
        (not_firstRefused hnext.distinct hnext.money)
    · rw [hg, hrefuses.unique hrefuses']

end Ledger

end TransferDesk
