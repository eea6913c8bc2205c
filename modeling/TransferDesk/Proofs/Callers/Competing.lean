import Mathlib.Algebra.BigOperators.Group.Finset.Piecewise
import TransferDesk.Proofs.Callers.Serial
import TransferDesk.Proofs.Desk.Withdrawals
import TransferDesk.Proofs.Ledger.Attained
/-!
# Competing withdrawals

Any number of callers ask for the same amount from the same account, each as often as it likes, with
requests in between that are no transfers. Whoever is let in first is served first: however the
callers take turns, the withdrawals are granted in the order in which the hold is granted, as far as
the funds reach, and all later ones are refused for want of funds.

The requests are answered as if one after the other (`Serial.run`), so this is what holds of
withdrawals one after the other, in the order of the hold.
-/

namespace TransferDesk

variable {ι : Type}

/-! ## Requests and responses in order -/

/-- The responses to more requests come behind those to the first ones. -/
theorem responses_append (start : Ledger) (done more : List (ι × Except Malformed Request)) :
    responses start (done ++ more) =
      responses start done ++ responses (ledgerAfter start done) more := by
  unfold responses ledgerAfter
  rw [List.map_append, List.map_append, Desk.answerAll_append, List.zip_append]
  rw [Desk.length_answerAll, List.length_map, List.length_map]

theorem responses_cons (start : Ledger) (i : ι) (request : Except Malformed Request)
    (more : List (ι × Except Malformed Request)) :
    responses start ((i, request) :: more) =
      (i, (Desk.answer request start).1) :: responses (Desk.answer request start).2 more :=
  rfl

theorem map_snd_responses (start : Ledger) (done : List (ι × Except Malformed Request)) :
    (responses start done).map Prod.snd = (Desk.answerAll (done.map Prod.snd) start).1 := by
  unfold responses
  rw [List.map_snd_zip]
  rw [Desk.length_answerAll, List.length_map, List.length_map]

/-- Whatever is counted in a list is counted in the shares that make it up. -/
theorem sum_countP_share [DecidableEq ι] [Fintype ι] {α : Type} (p : α → Bool) (xs : List (ι × α)) :
    ∑ i, (share i xs).countP p = (xs.map Prod.snd).countP p := by
  induction xs with
  | nil => exact Finset.sum_const_zero
  | cons x xs ih =>
    have hshare (i : ι) : (share i (x :: xs)).countP p =
        (share i xs).countP p + if x.1 = i then (if p x.2 then 1 else 0) else 0 := by
      unfold share
      by_cases hi : x.1 = i
      · rw [List.filter_cons_of_pos (by simpa using hi), List.map_cons, List.countP_cons, if_pos hi]
      · rw [List.filter_cons_of_neg (by simpa using hi), if_neg hi, Nat.add_zero]
    rw [Finset.sum_congr rfl fun i _ => hshare i, Finset.sum_add_distrib, ih,
      Finset.sum_ite_eq Finset.univ x.1, if_pos (Finset.mem_univ x.1), List.map_cons,
      List.countP_cons]

variable {start : Ledger} {x y : Account} {amount : ℚ}

/-! ## One request among others -/

/-- What is answered to a request when others have been answered before it. A withdrawal is granted
if fewer than the funds contain came before it, and otherwise refused for want of funds. An inquiry
after the first account shows what the withdrawals have left that were granted. -/
structure Competing (start : Ledger) (x : Account) (amount : ℚ)
    (before : List (ι × Except Malformed Request)) (request : Except Malformed Request)
    (response : Response) : Prop where
  first : ∀ order, request = .ok (.transfer order) →
    transfers (before.map Prod.snd) < x.capacity amount → response = .ok
  late : ∀ order, request = .ok (.transfer order) →
    x.capacity amount ≤ transfers (before.map Prod.snd) →
    ∃ available, available.value = x.balance.value - x.capacity amount * amount ∧
      response = .error ("Transfer failed: " ++
        (Fault.insufficientFunds x.id available order.amount.asMoney).message)
  shown : request = .ok (.balance x.id) →
    ∃ balance, response = .balance x.id balance ∧ balance.value =
      x.balance.value - granted ((responses start before).map Prod.snd) * amount

theorem competing_answer (hcompetition : start.Competition x y amount)
    (hplaces : TwoPlaces start.accounts) {before : List (ι × Except Malformed Request)}
    {request : Except Malformed Request}
    (hbefore : ∀ order, .ok (.transfer order) ∈ before.map Prod.snd → order.Withdraws x y amount)
    (hrequest : ∀ order, request = .ok (.transfer order) → order.Withdraws x y amount) :
    Competing start x amount before request
      (Desk.answer request (ledgerAfter start before)).1 := by
  obtain ⟨hgranted, hwithdrawn⟩ := Desk.granted_answerAll hcompetition hplaces hbefore
  change (ledgerAfter start before).Withdrawn x y amount _ at hwithdrawn
  rw [← map_snd_responses] at hgranted
  generalize ledgerAfter start before = l at hwithdrawn ⊢
  constructor
  · -- all withdrawals before this one were granted, and there is still enough for one more
    rintro order rfl hless
    rw [Nat.min_eq_left hless.le] at hwithdrawn
    exact ((Desk.answer_withdrawal hwithdrawn hcompetition (hrequest order rfl)).1 hless).1
  · -- as many were granted as the funds contain
    rintro order rfl hfull
    rw [Nat.min_eq_right hfull] at hwithdrawn
    exact ((Desk.answer_withdrawal hwithdrawn hcompetition (hrequest order rfl)).2
      (Nat.le_refl _)).2
  · rintro rfl
    obtain ⟨balance, hfound, hbalance⟩ := hwithdrawn.source
    refine ⟨balance, ?_, ?_⟩
    · rw [Desk.answer_eq_balance_iff, balancesOf_accounts, hfound]
      exact ⟨rfl, rfl⟩
    · rw [hgranted, hbalance]

/-! ## Interleavings -/

variable [DecidableEq ι]

namespace Hall

/-- Competing withdrawals are granted exactly as far as the funds reach. Take a ledger, two of its
accounts with one currency, an amount of whole cents, and any number of callers whose only transfers
are withdrawals of that amount from the first account, which has no debt, to the second one. However
the callers take turns until all requests are answered:

* as many withdrawals are granted as are asked for, or as often as the amount is contained in the
funds, if that is less;
* the responses are those to the requests one after the other, every caller's own in order and those
that need the ledger in the order in which the hold is granted. In that order the first withdrawals
are granted and all others refused for want of funds, and an inquiry after the first account shows
what has been left by the withdrawals that were granted before. -/
theorem withdrawals_granted_as_far_as_funds_reach [Fintype ι] {start : Ledger} (hl : start.Attained)
    {x y : Account} {amount : ℚ} (hcompetition : start.Competition x y amount)
    {requests : ι → List (Except Malformed Request)}
    (hrequests : ∀ i order, .ok (.transfer order) ∈ requests i → order.Withdraws x y amount)
    {moves : List (ι × Move)} {last : Hall ι}
    (hrun : (opening start requests).run? moves = some last)
    (hdone : ∀ i, (last.callers i).todo = []) :
    ∑ i, granted (last.callers i).answers =
      min (∑ i, transfers (requests i)) (x.capacity amount) ∧
    ∃ order : List (ι × Except Malformed Request),
      (∀ i, share i order = requests i) ∧ errands order = grants moves ∧
      (∀ i, (last.callers i).answers = share i (responses start order)) ∧
      ∀ before i request after, order = before ++ (i, request) :: after →
        ∃ response later,
          responses start order = responses start before ++ (i, response) :: later ∧
          Competing start x amount before request response := by
  obtain ⟨holder, order, hs⟩ := (Serial.opening start requests).run hrun
  obtain rfl := hs.holder_eq_none hdone
  -- nothing is left to do, so the requests that are answered are all requests
  have hshare : ∀ i, share i order = requests i := by
    intro i
    have htodo := hs.answered.todo i
    rwa [hdone i, List.append_nil] at htodo
  have hgrants : errands order = grants moves := by
    have hgranted := hs.granted
    rwa [Option.toList_none, List.append_nil, List.nil_append] at hgranted
  -- whatever is in the order is one of the requests of a caller
  have horder : ∀ o, .ok (.transfer o) ∈ order.map Prod.snd → o.Withdraws x y amount := by
    intro o ho
    obtain ⟨⟨i, request⟩, hmem, rfl⟩ := List.mem_map.1 ho
    apply hrequests i o
    rw [← hshare i]
    exact List.mem_map.2 ⟨_, List.mem_filter.2 ⟨hmem, by simp⟩, rfl⟩
  refine ⟨?_, order, hshare, hgrants, hs.answered.answers, ?_⟩
  · -- the counts of the callers add up to the count in the order
    have hall := (Desk.granted_answerAll hcompetition hl.twoPlaces horder).1
    rw [← map_snd_responses] at hall
    simp only [hs.answered.answers, ← hshare]
    unfold granted transfers at hall ⊢
    rw [sum_countP_share, ← hall]
    exact sum_countP_share _ _
  · rintro before i request after rfl
    refine ⟨_, _, by rw [responses_append, responses_cons], ?_⟩
    apply competing_answer hcompetition hl.twoPlaces
    · intro o ho
      apply horder o
      rw [List.map_append]
      exact List.mem_append_left _ ho
    · rintro o rfl
      apply horder o
      rw [List.map_append]
      exact List.mem_append_right _ List.mem_cons_self

/-- One of two callers asks for 3.50 twice, the other one once, having looked what is left. -/
def twoPayers : Bool → List (Except Malformed Request)
  | false => [.ok (.transfer ⟨1, 2, Decimal.ofParts 35 1, "rent"⟩),
    .ok (.transfer ⟨1, 2, Decimal.ofParts 350 2, "more rent"⟩)]
  | true => [.ok .ping, .ok (.balance 1), .ok (.transfer ⟨1, 2, Decimal.ofParts 3500 3, "toys"⟩)]

/-- What a caller does from being let in to giving up the hold. -/
def visit (i : Bool) : List (Bool × Move) :=
  [.grant, .enter, .ask, .finish, .leave].map fun move => (i, move)

/-- The second withdrawal of the first caller waits from the beginning of the inquiry on, and is the
last one to be let in. -/
def greedyLast : List (Bool × Move) :=
  [(false, .start), (true, .start), (true, .start)] ++ visit false ++ [(false, .start)] ++
    visit true ++ [(true, .start)] ++ visit true ++ visit false

/-- A ledger of two accounts, the first of which has 3.50 twice. -/
def sevenAndNothing : Ledger where
  accounts := [
    { id := 1, balance := Decimal.ofParts 700 2, currency := "GBP" },
    { id := 2, balance := Decimal.ofParts 0 2, currency := "GBP" }]
  ascending := by decide

theorem sevenAndNothing_competition :
    sevenAndNothing.Competition
      { id := 1, balance := Decimal.ofParts 700 2, currency := "GBP" }
      { id := 2, balance := Decimal.ofParts 0 2, currency := "GBP" } (7 / 2) := by
  have hsource : (Decimal.ofParts 700 2).value = 7 := by
    rw [Decimal.value_ofParts (by norm_num) (by norm_num)]
    norm_num
  have htarget : (Decimal.ofParts 0 2).value = 0 := by
    rw [Decimal.value_ofParts (by norm_num) (by norm_num)]
    norm_num
  constructor
  · exact List.mem_cons_self
  · exact List.mem_cons_of_mem _ List.mem_cons_self
  · decide
  · rfl
  · exact ⟨350, by norm_num, by norm_num⟩
  · rw [hsource]
    norm_num
  · rw [Decimal.cents, hsource]
    norm_num
  · rw [Decimal.cents, htarget]
    norm_num
  · rw [Decimal.cents, Decimal.cents, hsource, htarget]
    norm_num

theorem twoPayers_granted_twice :
    let x : Account := { id := 1, balance := Decimal.ofParts 700 2, currency := "GBP" }
    ∃ last, (opening sevenAndNothing twoPayers).run? greedyLast = some last ∧
      (∀ i, (last.callers i).todo = []) ∧
      ∑ i, granted (last.callers i).answers = 2 ∧
      ∃ order : List (Bool × Except Malformed Request),
        (∀ i, share i order = twoPayers i) ∧ errands order = [false, true, true, false] ∧
        (∀ i, (last.callers i).answers = share i (responses sevenAndNothing order)) ∧
        ∀ before i request after, order = before ++ (i, request) :: after →
          ∃ response later,
            responses sevenAndNothing order =
              responses sevenAndNothing before ++ (i, response) :: later ∧
            Competing sevenAndNothing x (7 / 2) before request response := by
  intro x
  have hstart : Ledger.ofAccounts sevenAndNothing.accounts = .ok sevenAndNothing := by decide
  have hl : sevenAndNothing.Attained := .of_ofAccounts hstart
  have hpossible : ((opening sevenAndNothing twoPayers).run? greedyLast).isSome = true := by
    rfl
  obtain ⟨last, hrun⟩ := Option.isSome_iff_exists.1 hpossible
  have hdone : ∀ i, (last.callers i).todo = [] := by
    have hall : ((opening sevenAndNothing twoPayers).run? greedyLast).map
        (fun h => ((h.callers false).todo.length, (h.callers true).todo.length)) = some (0, 0) := by
      rfl
    rw [hrun, Option.map_some] at hall
    obtain ⟨hfirst, hsecond⟩ := Prod.mk.inj (Option.some.inj hall)
    intro i
    cases i
    · exact List.eq_nil_of_length_eq_zero hfirst
    · exact List.eq_nil_of_length_eq_zero hsecond
  have hvalue {coeff : ℤ} {scale : ℕ} (hc : |coeff| < 2 ^ 96) (hs : scale ≤ 28) :=
    Decimal.value_ofParts hc hs
  have hrequests : ∀ i order, .ok (.transfer order) ∈ twoPayers i →
      order.Withdraws x { id := 2, balance := Decimal.ofParts 0 2, currency := "GBP" } (7 / 2) := by
    intro i order hmem
    -- the amount is written in three ways, but it is one amount
    rcases i with _ | _
    · simp only [twoPayers, List.mem_cons, List.not_mem_nil, or_false, Except.ok.injEq,
        Request.transfer.injEq] at hmem
      rcases hmem with rfl | rfl
      · exact ⟨rfl, rfl, by rw [hvalue] <;> norm_num⟩
      · exact ⟨rfl, rfl, by rw [hvalue] <;> norm_num⟩
    · simp only [twoPayers, List.mem_cons, List.not_mem_nil, or_false, Except.ok.injEq,
        Request.transfer.injEq, reduceCtorEq, false_or] at hmem
      subst hmem
      exact ⟨rfl, rfl, by rw [hvalue] <;> norm_num⟩
  obtain ⟨hcount, hinorder⟩ := withdrawals_granted_as_far_as_funds_reach hl
    sevenAndNothing_competition hrequests hrun hdone
  have hcapacity : x.capacity (7 / 2) = 2 := by
    rw [Account.capacity, hvalue (by norm_num) (by norm_num)]
    norm_num
  rw [hcapacity] at hcount
  exact ⟨last, hrun, hdone, hcount, hinorder⟩

end Hall

end TransferDesk
