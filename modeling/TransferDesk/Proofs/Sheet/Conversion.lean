import TransferDesk.Proofs.Decimal.Cents
import TransferDesk.Proofs.Decimal.Written
import TransferDesk.Sheet.Row
/-!
# The account of a row

`Row.Converts` says what account a row is: its balance is spelled by the cell, in either notation,
and comes to whole cents; its currency is three letters, in upper case; all else is as it stands in
the row. A row is made an account if it is one, and otherwise one of three faults is found
(`toAccount_cases`).

The places of a balance are counted after the text has become a decimal, which has no room for all
the digits that can be written. So a balance is kept as it is written, or else refused, as far as
decimals stand for what is written (`balance_as_written_or_refused`). Beyond that places are lost
before anybody counts them (`lost_place_goes_unnoticed`).
-/

namespace TransferDesk

/-- A text spells one decimal at most. -/
theorem Decimal.Spelled.unique {t : List Char} {d d' : Decimal} (h : Spelled t d)
    (h' : Spelled t d') : d = d' := by
  rw [← ofChars?_eq_some_iff] at h h'
  exact Option.some.inj (h.symm.trans h')

/-- Money is a whole number of cents. -/
theorem Decimal.not_exceedsMoney_iff_value {d : Decimal} :
    ¬ d.ExceedsMoney ↔ ∃ n : ℤ, d.value = n / 100 := by
  rw [not_exceedsMoney_iff]
  refine exists_congr fun n => ?_
  rw [cents, eq_div_iff (by norm_num : (100 : ℚ) ≠ 0), mul_comm]

namespace Sheet

open TransferDesk.Decimal (Representable Spelled plainNumber significand written)

/-! ## Currencies -/

/-- Three ASCII letters, in either case. -/
def IsCurrency (s : String) : Prop :=
  s.toList.length = 3 ∧ ∀ c ∈ s.toList, isLetter c

/-- A text with its ASCII letters in upper case. -/
def upperCase (s : String) : String :=
  String.ofList (s.toList.map Char.toUpper)

/-- A letter stays a letter in upper case, and nothing else becomes one. -/
theorem isLetter_toUpper (c : Char) : isLetter c.toUpper = isLetter c := by
  have hle (a b : Char) : a ≤ b ↔ a.toNat ≤ b.toNat := UInt32.le_iff_toNat_le
  have hval (a b : Char) : a.val ≤ b.val ↔ a.toNat ≤ b.toNat := UInt32.le_iff_toNat_le
  unfold Char.toUpper
  split
  · rename_i hlower
    have hbounds : 97 ≤ c.toNat ∧ c.toNat ≤ 122 := by
      rw [hval, hval] at hlower
      exact hlower
    -- the difference of the two cases is negative and wraps around
    have hupper : (c.val + ('A'.val - 'a'.val)).toNat = c.toNat - 32 := by
      have hc : c.val.toNat = c.toNat := rfl
      have hshift : ('A'.val - 'a'.val).toNat = 2 ^ 32 - 32 := rfl
      rw [UInt32.toNat_add, hshift, hc]
      omega
    rw [Bool.eq_iff_iff]
    unfold isLetter
    simp only [decide_eq_true_eq, hle]
    change 97 ≤ (c.val + ('A'.val - 'a'.val)).toNat ∧ (c.val + ('A'.val - 'a'.val)).toNat ≤ 122 ∨
      65 ≤ (c.val + ('A'.val - 'a'.val)).toNat ∧ (c.val + ('A'.val - 'a'.val)).toNat ≤ 90 ↔
      97 ≤ c.toNat ∧ c.toNat ≤ 122 ∨ 65 ≤ c.toNat ∧ c.toNat ≤ 90
    rw [hupper]
    omega
  · rfl

theorem readCurrency?_eq_some_iff {s u : String} :
    readCurrency? s = some u ↔ IsCurrency s ∧ u = upperCase s := by
  have hcondition : (s.toList.map Char.toUpper).length = 3 ∧
      (s.toList.map Char.toUpper).all isLetter ↔ IsCurrency s := by
    simp only [IsCurrency, List.length_map, List.all_map, List.all_eq_true, Function.comp_apply,
      isLetter_toUpper]
  unfold readCurrency? upperCase
  dsimp only
  by_cases hcurrency : IsCurrency s
  · rw [if_pos (hcondition.2 hcurrency), Option.some.injEq]
    simp only [hcurrency, true_and]
    exact eq_comm
  · rw [if_neg (mt hcondition.1 hcurrency)]
    simp only [hcurrency, false_and, reduceCtorEq]

theorem readCurrency?_eq_none_iff {s : String} : readCurrency? s = none ↔ ¬ IsCurrency s := by
  rw [Option.eq_none_iff_forall_ne_some]
  constructor
  · intro hnone hcurrency
    exact hnone _ (readCurrency?_eq_some_iff.2 ⟨hcurrency, rfl⟩)
  · intro hno u hu
    exact hno (readCurrency?_eq_some_iff.1 hu).1

/-! ## Rows -/

namespace Row

/-- The account that a row is. -/
structure Converts (r : Row) (a : Account) : Prop where
  balance : Spelled r.balance.toList a.balance
  cents : ∃ n : ℤ, a.balance.value = n / 100
  letters : IsCurrency r.currency
  account : a = {
    id := r.accountId
    customerId := r.customerId
    customerName := r.customerName
    customerEmail := r.customerEmail
    kind := r.kind
    balance := a.balance
    currency := upperCase r.currency }

/-- Which account a row is made, or why it is made none. -/
theorem toAccount_cases (r : Row) :
    (¬ ∃ d, Spelled r.balance.toList d) ∧
        r.toAccount = .error (.unreadableBalance r.balance r.accountId) ∨
      ∃ d, Spelled r.balance.toList d ∧
        ((∀ n : ℤ, d.value ≠ n / 100) ∧
            r.toAccount = .error (.preciseBalance r.balance r.accountId) ∨
          (∃ n : ℤ, d.value = n / 100) ∧ ¬ IsCurrency r.currency ∧
            r.toAccount = .error (.badCurrency r.currency r.accountId) ∨
          ∃ a, r.Converts a ∧ a.balance = d ∧ r.toAccount = .ok a) := by
  unfold toAccount
  split
  · rename_i hnone
    left
    refine ⟨?_, rfl⟩
    rintro ⟨d, hd⟩
    rw [← Decimal.ofChars?_eq_some_iff] at hd
    exact Option.some_ne_none d (hd.symm.trans hnone)
  · rename_i d hread
    right
    refine ⟨d, Decimal.ofChars?_eq_some_iff.1 hread, ?_⟩
    by_cases hexceeds : d.ExceedsMoney
    · left
      refine ⟨?_, if_pos hexceeds⟩
      intro n hn
      exact Decimal.not_exceedsMoney_iff_value.2 ⟨n, hn⟩ hexceeds
    · right
      have hcents := Decimal.not_exceedsMoney_iff_value.1 hexceeds
      rw [if_neg hexceeds]
      split
      · rename_i hcurrency
        left
        exact ⟨hcents, readCurrency?_eq_none_iff.1 hcurrency, rfl⟩
      · rename_i currency hcurrency
        right
        obtain ⟨hletters, rfl⟩ := readCurrency?_eq_some_iff.1 hcurrency
        have hspelled : Spelled r.balance.toList d := Decimal.ofChars?_eq_some_iff.1 hread
        exact ⟨_, ⟨hspelled, hcents, hletters, rfl⟩, rfl, rfl⟩

/-- A row is one account at most. -/
theorem Converts.unique {r : Row} {a b : Account} (ha : r.Converts a) (hb : r.Converts b) :
    a = b := by
  rw [ha.account, hb.account, ha.balance.unique hb.balance]

/-- A row is made the account that it is. -/
theorem toAccount_eq_ok_iff {r : Row} {a : Account} : r.toAccount = .ok a ↔ r.Converts a := by
  rcases toAccount_cases r with ⟨hno, heq⟩ | ⟨d, hd, h⟩
  · rw [heq]
    refine iff_of_false (by simp) ?_
    intro hconverts
    exact hno ⟨_, hconverts.balance⟩
  · rcases h with ⟨hmore, heq⟩ | ⟨-, hletters, heq⟩ | ⟨b, hb, rfl, heq⟩
    · rw [heq]
      refine iff_of_false (by simp) ?_
      intro hconverts
      obtain ⟨n, hn⟩ := hconverts.cents
      rw [hconverts.balance.unique hd] at hn
      exact hmore n hn
    · rw [heq]
      refine iff_of_false (by simp) ?_
      intro hconverts
      exact hletters hconverts.letters
    · rw [heq]
      constructor
      · intro hok
        exact Except.ok.inj hok ▸ hb
      · intro ha
        rw [ha.unique hb]

/-! ## The balance that is written and the balance that is kept -/

/-- How the balance of an account stands to the text in its row. A text that spells no decimal is
refused. Take a text that spells one, in plain or in scientific notation and with any number of
digits.

* The decimal is the number that is written if and only if some decimal stands for the significand
and some decimal for the number. Otherwise it is off by less than a unit of its last place.
* It is refused for its places if and only if it is no whole number of cents.
* Else it is the balance of the account, if the currency is one.

So a number that is read as it is written is kept as it is written, and refused if it is not whole
cents. -/
theorem balance_as_written_or_refused (r : Row) :
    ((¬ ∃ d, Spelled r.balance.toList d) →
      r.toAccount = .error (.unreadableBalance r.balance r.accountId)) ∧
    ∀ d, Spelled r.balance.toList d →
      (d.value = written r.balance.toList ↔
        Representable (plainNumber (significand r.balance.toList)) ∧
          Representable (written r.balance.toList)) ∧
      |d.value - written r.balance.toList| < 1 / 10 ^ d.scale ∧
      (r.toAccount = .error (.preciseBalance r.balance r.accountId) ↔ ∀ n : ℤ, d.value ≠ n / 100) ∧
      (∀ a, r.toAccount = .ok a → a.balance = d) ∧
      ((∃ a, r.toAccount = .ok a) ↔ (∃ n : ℤ, d.value = n / 100) ∧ IsCurrency r.currency) := by
  constructor
  · intro hno
    rcases toAccount_cases r with ⟨-, heq⟩ | ⟨d, hd, -⟩
    · exact heq
    · exact absurd ⟨d, hd⟩ hno
  · intro d hd
    have hfrom := Decimal.readFrom_of_ofChars? (Decimal.ofChars?_eq_some_iff.2 hd)
    refine ⟨hfrom.exact_iff, hfrom.near, ?_⟩
    have hcases := toAccount_cases r
    rcases hcases with ⟨hno, -⟩ | ⟨d', hd', h⟩
    · exact absurd ⟨d, hd⟩ hno
    · obtain rfl : d' = d := hd'.unique hd
      rcases h with ⟨hmore, heq⟩ | ⟨⟨n, hn⟩, hletters, heq⟩ | ⟨a, ha, rfl, heq⟩
      · refine ⟨iff_of_true heq hmore, by simp [heq], iff_of_false (by simp [heq]) ?_⟩
        rintro ⟨⟨n, hn⟩, -⟩
        exact hmore n hn
      · refine ⟨iff_of_false (by simp [heq]) (fun hmore => hmore n hn), by simp [heq], ?_⟩
        refine iff_of_false (by simp [heq]) ?_
        intro h
        exact hletters h.2
      · obtain ⟨n, hn⟩ := ha.cents
        refine ⟨iff_of_false (by simp [heq]) (fun hmore => hmore n hn), ?_, ?_⟩
        · intro b hb
          rw [heq] at hb
          exact congrArg Account.balance (Except.ok.inj hb).symm
        · exact iff_of_true ⟨a, heq⟩ ⟨⟨n, hn⟩, ha.letters⟩

/-- A row with a balance of a little more than one: the last place is the 29th. -/
def littleMore : Row where
  accountId := 1
  customerId := 10
  customerName := "Ada"
  customerEmail := "ada@example.com"
  kind := "checking"
  balance := "1.00000000000000000000000000001"
  currency := "eur"

/-- The balance that is written is no whole number of cents, and no decimal stands for it. Its last
place is lost before the places are counted, and the account has one. -/
theorem lost_place_goes_unnoticed :
    ∃ a, littleMore.toAccount = .ok a ∧ a.balance.value = 1 ∧
      written littleMore.balance.toList = 1 + 1 / 10 ^ 29 ∧
      (∀ n : ℤ, written littleMore.balance.toList ≠ n / 100) ∧
      ¬ Representable (written littleMore.balance.toList) := by
  have hread : Decimal.ofChars? littleMore.balance.toList =
      some (Decimal.ofParts (10 ^ 28) 28) := by
    decide +kernel
  have hwritten : written littleMore.balance.toList = 1 + 1 / 10 ^ 29 := by
    decide +kernel
  have hsignificand : plainNumber (significand littleMore.balance.toList) =
      written littleMore.balance.toList := by
    decide +kernel
  have hcurrency : IsCurrency littleMore.currency := by
    refine (readCurrency?_eq_some_iff (u := "EUR")).1 ?_ |>.1
    decide +kernel
  have hvalue : (Decimal.ofParts (10 ^ 28) 28).value = 1 := by
    rw [Decimal.value_ofParts (by norm_num) (by norm_num)]
    norm_num
  obtain ⟨hexact, -, -, hbalance, hok⟩ :=
    (balance_as_written_or_refused littleMore).2 _ (Decimal.ofChars?_eq_some_iff.1 hread)
  obtain ⟨a, ha⟩ := hok.2 ⟨⟨100, by rw [hvalue]; norm_num⟩, hcurrency⟩
  rw [hvalue] at hexact
  refine ⟨a, ha, by rw [hbalance a ha, hvalue], hwritten, ?_, ?_⟩
  · intro n hn
    rw [hwritten] at hn
    have hint : (100 * 10 ^ 29 + 100 : ℤ) = n * 10 ^ 29 := by
      have hrat : (100 * 10 ^ 29 + 100 : ℚ) = n * 10 ^ 29 := by
        linarith
      exact_mod_cast hrat
    omega
  · intro hrepresentable
    have hone := hexact.2 ⟨hsignificand ▸ hrepresentable, hrepresentable⟩
    rw [hwritten] at hone
    norm_num at hone

end Row

end Sheet

end TransferDesk
