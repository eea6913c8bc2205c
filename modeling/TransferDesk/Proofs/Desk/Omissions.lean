import TransferDesk.Proofs.Decimal.Value
import TransferDesk.Proofs.Desk.Effects
import TransferDesk.Proofs.Desk.Errands
/-!
# Requests that leave no trace

A request that is answered `OK` is a transfer. It adds one entry to the journal, for what it asked,
and sets balances of the two accounts that it names (`Ledger.Grows`). Any other request leaves the
ledger as it is.

So requests that were not answered `OK` can be left out, wherever they stand, and nobody who stays
can tell: all other responses are the same, and so is the ledger in the end
(`Desk.answerAll_leaveOut`). `Desk.only_confirmations_count` says both of every sequence of
requests.
-/

namespace TransferDesk

/-! ## One request -/

/-- The ledger gains the transfer that was asked for, and nothing else changes. -/
structure Ledger.Grows (before : Ledger) (order : TransferOrder) (after : Ledger) : Prop where
  journal : ∃ entry, after.journal = before.journal ++ [entry] ∧
    entry.number = before.nextNumber ∧
    entry.order.source = order.source ∧ entry.order.target = order.target ∧
    entry.order.description = order.description ∧
    entry.order.amount.value = order.amount.value
  nextNumber : after.nextNumber = before.nextNumber + 1
  accounts : ∃ balance : Account → Decimal,
    after.accounts = before.accounts.map (fun a => { a with balance := balance a }) ∧
    ∀ a, a.id ≠ order.source → a.id ≠ order.target → balance a = a.balance

theorem Ledger.Made.grows {before after : Ledger} {order : TransferOrder} {source target : Account}
    {p : Posting} (h : before.Made order source target p after) : before.Grows order after := by
  constructor
  · refine ⟨⟨before.nextNumber, p.order order⟩, h.journal, rfl, rfl, rfl, rfl, ?_⟩
    -- the amount is booked at two places, which is the same number
    change p.amount.value = _
    rw [h.takes.settled.booked, Decimal.value_asMoney]
  · exact h.nextNumber
  · obtain ⟨balance, hupdate, hothers⟩ := p.exists_balance order
    refine ⟨balance, ?_, hothers⟩
    rw [h.accounts]
    exact List.map_congr_left fun a _ => hupdate a

namespace Desk

/-- What the answer to a request says about the ledger after it. -/
theorem answer_grows_or_stays (request : Except Malformed Request) (l : Ledger) :
    ((answer request l).1 = .ok →
      ∃ order, request = .ok (.transfer order) ∧ l.Grows order (answer request l).2) ∧
    ((answer request l).1 ≠ .ok → (answer request l).2 = l) := by
  rcases answer_cases request l with
    ⟨hother, hsame⟩ | ⟨order, source, target, p, hrequest, hok, hmade⟩
  · constructor
    · intro hok
      exact absurd hok hother
    · intro _
      exact hsame
  · constructor
    · intro _
      exact ⟨order, hrequest, hmade.grows⟩
    · intro hother
      exact absurd hok hother

/-! ## Sequences of requests -/

/-- The response at a position is the answer to the request there, with the ledger as the requests
before have left it. -/
theorem answerAll_at {requests : List (Except Malformed Request)} {i : ℕ}
    {request : Except Malformed Request} (h : requests[i]? = some request) (l : Ledger) :
    (answerAll requests l).1[i]? = some (answer request (answerAll (requests.take i) l).2).1 ∧
      (answerAll (requests.take (i + 1)) l).2 =
        (answer request (answerAll (requests.take i) l).2).2 := by
  simp only [answerAll_eq_runAll]
  exact runAll_at answer h l

/-- Requests that were not answered `OK` can be left out. -/
theorem answerAll_leaveOut {omitted : Finset ℕ} (requests : List (Except Malformed Request))
    (l : Ledger) (h : ∀ i ∈ omitted, (answerAll requests l).1[i]? ≠ some .ok) :
    answerAll (leaveOut omitted requests) l =
      (leaveOut omitted (answerAll requests l).1, (answerAll requests l).2) := by
  simp only [answerAll_eq_runAll] at h ⊢
  apply runAll_leaveOut (fun _ response => response ≠ .ok)
    fun request l hother => (answer_grows_or_stays request l).2 hother
  intro i request response hi _ hresponse hok
  apply h i hi
  rw [hresponse, hok]

/-- Only a request that is answered `OK` changes the ledger. Take any sequence of requests.

* A request that is answered `OK` is a transfer, and then the journal gains one entry, with the
  accounts, the description and the amount of the request, and only balances of the two accounts
  named change. After any other answer the ledger is what it was.
* If any requests that were not answered `OK` are left out, all other requests get the response that
  they got, and the ledger is the same in the end. -/
theorem only_confirmations_count (requests : List (Except Malformed Request)) (l : Ledger) :
    (∀ i request, requests[i]? = some request →
      let before := (answerAll (requests.take i) l).2
      let after := (answerAll (requests.take (i + 1)) l).2
      ∃ response, (answerAll requests l).1[i]? = some response ∧
        (response = .ok → ∃ order, request = .ok (.transfer order) ∧ before.Grows order after) ∧
        (response ≠ .ok → after = before)) ∧
    ∀ omitted : Finset ℕ, (∀ i ∈ omitted, (answerAll requests l).1[i]? ≠ some .ok) →
      answerAll (leaveOut omitted requests) l =
        (leaveOut omitted (answerAll requests l).1, (answerAll requests l).2) := by
  constructor
  · intro i request hrequest before after
    obtain ⟨hresponse, hafter⟩ := answerAll_at hrequest l
    obtain ⟨hgrows, hstays⟩ := answer_grows_or_stays request before
    refine ⟨(answer request before).1, hresponse, ?_, ?_⟩
    · intro hok
      change ∃ order, _ ∧ before.Grows order (answerAll (requests.take (i + 1)) l).2
      rw [hafter]
      exact hgrows hok
    · intro hother
      change (answerAll (requests.take (i + 1)) l).2 = before
      rw [hafter]
      exact hstays hother
  · intro omitted homitted
    exact answerAll_leaveOut requests l homitted

/-- A ledger of two accounts, one of them empty. -/
def twoAccounts : Ledger where
  accounts := [
    { id := 1, balance := Decimal.ofParts 400 2, currency := "USD" },
    { id := 2, balance := Decimal.ofParts 0 2, currency := "USD" }]
  ascending := by decide

/-- A request that cannot be read, a transfer that is too large, one that is made, and two
look-ups. -/
def mixedRequests : List (Except Malformed Request) :=
  [.error .balance, .ok (.transfer ⟨1, 2, Decimal.ofParts 6 0, "too much"⟩),
    .ok (.transfer ⟨1, 2, Decimal.ofParts 35 1, "rent"⟩), .ok (.balance 7), .ok (.balance 2)]

theorem mixedRequests_confirmations :
    (∀ i ∈ ({0, 1, 3} : Finset ℕ), (answerAll mixedRequests twoAccounts).1[i]? ≠ some .ok) ∧
    (answerAll mixedRequests twoAccounts).1[2]? = some .ok ∧
    (∃ order, mixedRequests[2]? = some (.ok (.transfer order)) ∧
      (answerAll (mixedRequests.take 2) twoAccounts).2.Grows order
        (answerAll (mixedRequests.take 3) twoAccounts).2) ∧
    leaveOut {0, 1, 3} mixedRequests =
      [.ok (.transfer ⟨1, 2, Decimal.ofParts 35 1, "rent"⟩), .ok (.balance 2)] ∧
    answerAll (leaveOut {0, 1, 3} mixedRequests) twoAccounts =
      (leaveOut {0, 1, 3} (answerAll mixedRequests twoAccounts).1,
        (answerAll mixedRequests twoAccounts).2) ∧
    leaveOut {0, 1, 3} (answerAll mixedRequests twoAccounts).1 =
      [.ok, .balance 2 (Decimal.ofParts 350 2)] := by
  have hothers : ∀ i ∈ ({0, 1, 3} : Finset ℕ),
      (answerAll mixedRequests twoAccounts).1[i]? ≠ some .ok := by
    decide +kernel
  have hmade : (answerAll mixedRequests twoAccounts).1[2]? = some .ok := by decide +kernel
  obtain ⟨heach, homit⟩ := only_confirmations_count mixedRequests twoAccounts
  obtain ⟨response, hresponse, hgrows, -⟩ := heach 2 _ rfl
  rw [hmade] at hresponse
  obtain ⟨order, horder, hgrown⟩ := hgrows (Option.some.inj hresponse).symm
  refine ⟨hothers, hmade, ⟨order, congrArg some horder, hgrown⟩, rfl, homit _ hothers, ?_⟩
  decide +kernel

end Desk

end TransferDesk
