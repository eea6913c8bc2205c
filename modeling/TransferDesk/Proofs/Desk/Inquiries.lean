import TransferDesk.Proofs.Decimal.Shown
import TransferDesk.Proofs.Desk.Omissions
import TransferDesk.Proofs.Ledger.Building
import TransferDesk.Proofs.Scope.Balances
/-!
# The balance that is shown

An inquiry is answered with the balance that the ledger has then (`Desk.answer_eq_balance_iff`). Two
places of it are shown, and further ones would be cut off. But a ledger never has a balance with
further places (`TwoPlaces`): the accounts that it is built from have none, and a transfer leaves
none, even where a balance is rounded (`keptByTransfers_twoPlaces`). So the line shows the balance
to its last digit (`Desk.balance_shown_exactly`).
-/

namespace TransferDesk

open Scope (KeptByTransfers)

/-! ## Places of balances -/

/-- Accounts whose balances have two places at most. -/
def TwoPlaces (accounts : List Account) : Prop :=
  ∀ a ∈ accounts, a.balance.scale ≤ moneyPlaces

/-- A transfer between balances with two places at most leaves such balances. -/
theorem Settled.scale_le {source target : Account} {amount : Decimal} {p : Posting}
    (h : Settled source target amount p) (hsource : source.balance.scale ≤ moneyPlaces)
    (htarget : target.balance.scale ≤ moneyPlaces) :
    p.sourceBalance.scale ≤ moneyPlaces ∧ p.targetBalance.scale ≤ moneyPlaces := by
  have hamount := Decimal.scale_asMoney_le h.money
  exact ⟨Decimal.scale_sub?_le h.debit hsource hamount,
    Decimal.scale_add?_le h.credit htarget hamount⟩

theorem keptByTransfers_twoPlaces : KeptByTransfers fun accounts _ => TwoPlaces accounts := by
  intro s order source target p ht h a ha
  obtain ⟨b, hb, rfl⟩ := List.mem_map.1 ha
  -- the two new balances come from balances shown, and all others are shown as they were
  obtain ⟨hsource, htarget⟩ := ht.settled.scale_le (h _ ht.source_mem) (h _ ht.target_mem)
  unfold Posting.update
  split
  · exact htarget
  · split
    · exact hsource
    · exact h b hb

theorem TwoPlaces.of_ofAccounts {accounts : List Account} {start : Ledger}
    (hstart : Ledger.ofAccounts accounts = .ok start) : TwoPlaces start.accounts := by
  intro a ha
  obtain ⟨b, -, hmoney, rfl⟩ := (Ledger.ofAccounts_eq_ok hstart).1 a ha
  exact Decimal.scale_asMoney_le hmoney

/-! ## Inquiries -/

/-- To look a balance up finds what the ledger has for the account. -/
theorem Ledger.balance_eq (l : Ledger) (id : AccountId) :
    (l.balance id).1 = match balancesOf l.accounts id with
      | some amount => .ok amount
      | none => .error (.unknownAccount id) := by
  have hrun : (Scope.begin l .readOnly).run (.balance id) =
      (.ok (balancesOf l.accounts id), Scope.begin l .readOnly) := by
    rw [← Scope.shown_begin l .readOnly, Scope.balancesOf_shown]
    rfl
  unfold Ledger.balance
  rw [execute_ask_of_ok hrun rfl]
  cases balancesOf l.accounts id with
  | none => rfl
  | some amount => rfl

namespace Desk

/-- A balance is the answer to an inquiry after an account, and it is the balance of that
account. -/
theorem answer_eq_balance_iff {request : Except Malformed Request} {l : Ledger} {id : AccountId}
    {amount : Decimal} :
    (answer request l).1 = .balance id amount ↔
      request = .ok (.balance id) ∧ balancesOf l.accounts id = some amount := by
  rcases request with malformed | request
  · simp [answer]
  · cases request with
    | ping => simp [answer, serve]
    | unknown verb => simp [answer, serve]
    | transfer order =>
      simp only [answer, serve, Bank.transfer]
      rcases (l.transfer order).1 with fault | done <;> simp [Outcome.ofExcept, respond]
    | balance other =>
      have hanswer : (answer (.ok (.balance other)) l).1 =
          respond (.balance other) (.ofExcept (l.balance other).1) := rfl
      rw [hanswer, l.balance_eq]
      cases hbalance : balancesOf l.accounts other with
      | none =>
        constructor
        · intro h
          cases h
        · rintro ⟨hsame, hfound⟩
          cases hsame
          rw [hbalance] at hfound
          cases hfound
      | some found =>
        constructor
        · intro h
          cases h
          exact ⟨rfl, hbalance⟩
        · rintro ⟨hsame, hfound⟩
          cases hsame
          rw [hbalance] at hfound
          cases hfound
          rfl

/-- Requests keep whatever every transfer keeps. -/
theorem answerAll_keeps {P : List Account → List TransferOrder → Prop} (hP : KeptByTransfers P)
    {l : Ledger} (h : P l.accounts l.history) (requests : List (Except Malformed Request)) :
    P (answerAll requests l).2.accounts (answerAll requests l).2.history := by
  induction requests generalizing l with
  | nil => exact h
  | cons request requests ih => exact ih (hP.answer h request)

/-- An inquiry shows the balance to its last digit. Take a ledger that was built from accounts, any
requests to it, and the ledger as the requests in front of one of them have left it.

* The response to that request is a balance if and only if the request is an inquiry after an
account that the ledger has. It is the balance that the ledger then has for that account.
* Of such a balance there are two places at most. What goes over the wire is the number of the
account and a text with exactly two digits behind the point, and the number that is written there is
the balance. -/
theorem balance_shown_exactly {accounts : List Account} {start : Ledger}
    (hstart : Ledger.ofAccounts accounts = .ok start) (requests : List (Except Malformed Request))
    (i : ℕ) (id : AccountId) (amount : Decimal) :
    ((answerAll requests start).1[i]? = some (.balance id amount) ↔
      requests[i]? = some (.ok (.balance id)) ∧
        balancesOf (answerAll (requests.take i) start).2.accounts id = some amount) ∧
    (balancesOf (answerAll (requests.take i) start).2.accounts id = some amount →
      amount.scale ≤ 2 ∧
      ∃ text, (Response.balance id amount).wire =
          "BALANCE ".toList ++ Text.integerChars id.toInt ++ ' ' :: text ++ ['\n'] ∧
        Decimal.FixedNotation 2 text ∧ Decimal.plainNumber text = amount.value) := by
  constructor
  · cases hrequest : requests[i]? with
    | none =>
      have hend : (answerAll requests start).1[i]? = none := by
        rw [List.getElem?_eq_none_iff] at hrequest ⊢
        rwa [length_answerAll]
      simp [hend]
    | some request =>
      rw [(answerAll_at hrequest start).1, Option.some.injEq, Option.some.injEq]
      exact answer_eq_balance_iff
  · intro hbalance
    have hplaces := answerAll_keeps keptByTransfers_twoPlaces
      (TwoPlaces.of_ofAccounts hstart) (requests.take i)
    obtain ⟨a, ha, rfl⟩ := Option.map_eq_some_iff.1 hbalance
    have hscale : a.balance.scale ≤ moneyPlaces := hplaces a (List.mem_of_find?_eq_some ha)
    refine ⟨hscale, a.balance.toFixedChars moneyPlaces, rfl, ?_, ?_⟩
    · exact Decimal.fixedNotation_toFixedChars (by decide) a.balance
    · exact Decimal.plainNumber_toFixedChars (Decimal.not_exceedsMoney_of_scale_le hscale)

/-- A ledger with an account in debt, one at the limit of 96 bits and one in between. -/
def debtAndFortune : Ledger where
  accounts := [
    { id := 1, balance := Decimal.ofParts (-50) 2, currency := "USD" },
    { id := 2, balance := Decimal.ofParts (2 ^ 96 - 2) 0, currency := "USD" },
    { id := 3, balance := Decimal.ofParts 700 2, currency := "USD" }]
  ascending := by decide

/-- A transfer that is rounded away at the limit, and inquiries after the debt and the fortune. -/
def roundedAndInquired : List (Except Malformed Request) :=
  [.ok (.transfer ⟨3, 2, Decimal.ofParts 1 2, "cent"⟩), .ok (.balance 1), .ok (.balance 2)]

theorem debtAndFortune_shown :
    Ledger.ofAccounts debtAndFortune.accounts = .ok debtAndFortune ∧
    ((answerAll roundedAndInquired debtAndFortune).1[1]? =
        some (.balance 1 (Decimal.ofParts (-50) 2)) ∧
      ∃ text, (Response.balance 1 (Decimal.ofParts (-50) 2)).wire =
          "BALANCE ".toList ++ Text.integerChars 1 ++ ' ' :: text ++ ['\n'] ∧
        Decimal.FixedNotation 2 text ∧
        Decimal.plainNumber text = (Decimal.ofParts (-50) 2).value) ∧
    (answerAll roundedAndInquired debtAndFortune).1[2]? =
        some (.balance 2 (Decimal.ofParts (2 ^ 96 - 2) 0)) ∧
      ∃ text, (Response.balance 2 (Decimal.ofParts (2 ^ 96 - 2) 0)).wire =
          "BALANCE ".toList ++ Text.integerChars 2 ++ ' ' :: text ++ ['\n'] ∧
        Decimal.FixedNotation 2 text ∧
        Decimal.plainNumber text = (Decimal.ofParts (2 ^ 96 - 2) 0).value := by
  have hstart : Ledger.ofAccounts debtAndFortune.accounts = .ok debtAndFortune := by
    decide +kernel
  have hdebt : (answerAll roundedAndInquired debtAndFortune).1[1]? =
      some (.balance 1 (Decimal.ofParts (-50) 2)) := by
    decide +kernel
  have hfortune : (answerAll roundedAndInquired debtAndFortune).1[2]? =
      some (.balance 2 (Decimal.ofParts (2 ^ 96 - 2) 0)) := by
    decide +kernel
  obtain ⟨hdebt', hshown⟩ := balance_shown_exactly hstart roundedAndInquired 1 1 _
  obtain ⟨hfortune', hshown'⟩ := balance_shown_exactly hstart roundedAndInquired 2 2 _
  exact ⟨hstart, ⟨hdebt, (hshown (hdebt'.1 hdebt).2).2⟩, hfortune,
    (hshown' (hfortune'.1 hfortune).2).2⟩

end Desk

end TransferDesk
