import TransferDesk.Proofs.Callers.Interleaving
import TransferDesk.Proofs.Decimal.Value
import TransferDesk.Proofs.Visit
/-!
# Interleavings are serial

However the callers at a turnstile take turns, their requests are answered as if one after the
other: in the order in which the hold is granted, on a ledger that nobody else touches.

`Serial` is what holds all along. The requests that are answered so far are in some order `done`,
and the ledger that they lead to when they are answered in that order is the one that the holder, if
there is one, has found. Only the holder has changed anything since, and what is left of the
holder's program leads to where the whole errand leads from there.

* `Serial.step` says that every move of every caller keeps this up, and `Serial.run` that
  interleavings do.
* `Hall.exists_step_of_run`: as long as a request is not answered, somebody can go on.
* `Hall.interleaving_serializable`: once all requests are answered, each has got the response that
  it gets when they are answered one after the other, and the ledger is the one after that.
-/

namespace TransferDesk

variable {ι : Type}

/-! ## Requests of several callers, one after the other -/

/-- The ledger after requests that are answered one after the other. -/
def ledgerAfter (start : Ledger) (done : List (ι × Except Malformed Request)) : Ledger :=
  (Desk.answerAll (done.map Prod.snd) start).2

/-- Who gets which response when requests are answered one after the other. -/
def responses (start : Ledger) (done : List (ι × Except Malformed Request)) :
    List (ι × Response) :=
  (done.map Prod.fst).zip (Desk.answerAll (done.map Prod.snd) start).1

theorem ledgerAfter_concat (start : Ledger) (done : List (ι × Except Malformed Request)) (i : ι)
    (request : Except Malformed Request) :
    ledgerAfter start (done ++ [(i, request)]) =
      (Desk.answer request (ledgerAfter start done)).2 := by
  unfold ledgerAfter
  rw [List.map_append, List.map_singleton, Desk.answerAll_concat]

theorem responses_concat (start : Ledger) (done : List (ι × Except Malformed Request)) (i : ι)
    (request : Except Malformed Request) :
    responses start (done ++ [(i, request)]) =
      responses start done ++ [(i, (Desk.answer request (ledgerAfter start done)).1)] := by
  unfold responses ledgerAfter
  rw [List.map_append, List.map_append, List.map_singleton, List.map_singleton,
    Desk.answerAll_concat, List.zip_append]
  · rfl
  · rw [Desk.length_answerAll, List.length_map, List.length_map]

/-- The callers whose requests needed the ledger, in the order of the requests. -/
def errands (done : List (ι × Except Malformed Request)) : List ι :=
  (done.filter fun x => (Desk.job x.2).isErrand).map Prod.fst

theorem errands_concat_of_reply {request : Except Malformed Request} {response : Response}
    (hjob : Desk.job request = .reply response) (done : List (ι × Except Malformed Request))
    (i : ι) : errands (done ++ [(i, request)]) = errands done := by
  have hnot : (Desk.job request).isErrand = false := by rw [hjob]; rfl
  unfold errands
  rw [List.filter_append, List.filter_cons_of_neg (by simp [hnot]), List.filter_nil,
    List.append_nil]

theorem errands_concat_of_errand {request : Except Malformed Request} {e : Errand}
    (hjob : Desk.job request = .errand e) (done : List (ι × Except Malformed Request))
    (i : ι) : errands (done ++ [(i, request)]) = errands done ++ [i] := by
  have hneeds : (Desk.job request).isErrand = true := by rw [hjob]; rfl
  unfold errands
  rw [List.filter_append, List.filter_cons_of_pos (by simp [hneeds]), List.filter_nil,
    List.map_append, List.map_singleton]

theorem grants_of_ne {m : Move} (hm : m ≠ .grant) (i : ι) : grants [(i, m)] = [] := by
  unfold grants
  rw [List.filter_cons_of_neg (by simpa using hm), List.filter_nil, List.map_nil]

theorem grants_cons (move : ι × Move) (moves : List (ι × Move)) :
    grants (move :: moves) = grants [move] ++ grants moves := by
  unfold grants
  rw [← List.map_append, ← List.filter_append, List.singleton_append]

/-! ## Shares -/

variable [DecidableEq ι]

section Shares

variable {α : Type} (i : ι)

theorem share_concat_self (xs : List (ι × α)) (x : α) :
    share i (xs ++ [(i, x)]) = share i xs ++ [x] := by
  unfold share
  rw [List.filter_append, List.map_append, List.filter_cons_of_pos (by simp), List.filter_nil]
  rfl

theorem share_concat_of_ne {j : ι} (hj : j ≠ i) (xs : List (ι × α)) (x : α) :
    share i (xs ++ [(j, x)]) = share i xs := by
  unfold share
  rw [List.filter_append, List.map_append, List.filter_cons_of_neg (by simpa using hj),
    List.filter_nil, List.map_nil, List.append_nil]

end Shares

/-! ## The answers that are given so far -/

/-- Every caller has got the answers to the first of its requests, and has the others to do. -/
structure Answered (start : Ledger) (requests : ι → List (Except Malformed Request))
    (done : List (ι × Except Malformed Request)) (callers : ι → Caller) : Prop where
  todo : ∀ i, share i done ++ (callers i).todo = requests i
  answers : ∀ i, (callers i).answers = share i (responses start done)

namespace Answered

variable {start : Ledger} {requests : ι → List (Except Malformed Request)}
  {done : List (ι × Except Malformed Request)} {callers : ι → Caller} {i : ι} {caller : Caller}

theorem waits (h : Answered start requests done callers) (htodo : caller.todo = (callers i).todo)
    (hanswers : caller.answers = (callers i).answers) :
    Answered start requests done (Function.update callers i caller) := by
  constructor
  · intro j
    by_cases hj : j = i
    · subst hj
      rw [Function.update_self, htodo]
      exact h.todo j
    · rw [Function.update_of_ne hj]
      exact h.todo j
  · intro j
    by_cases hj : j = i
    · subst hj
      rw [Function.update_self, hanswers]
      exact h.answers j
    · rw [Function.update_of_ne hj]
      exact h.answers j

theorem answer (h : Answered start requests done callers) {request : Except Malformed Request}
    (htodo : (callers i).todo = request :: caller.todo)
    (hanswers : caller.answers =
      (callers i).answers ++ [(Desk.answer request (ledgerAfter start done)).1]) :
    Answered start requests (done ++ [(i, request)]) (Function.update callers i caller) := by
  constructor
  · intro j
    by_cases hj : j = i
    · subst hj
      rw [Function.update_self, share_concat_self, List.append_assoc, List.singleton_append,
        ← htodo]
      exact h.todo j
    · rw [Function.update_of_ne hj, share_concat_of_ne j (Ne.symm hj)]
      exact h.todo j
  · intro j
    rw [responses_concat]
    by_cases hj : j = i
    · subst hj
      rw [Function.update_self, share_concat_self, hanswers, h.answers j]
    · rw [Function.update_of_ne hj, share_concat_of_ne j (Ne.symm hj)]
      exact h.answers j

end Answered

/-! ## Moves of one caller -/

namespace Caller

/-- A caller without the hold. -/
inductive Outside : Caller → Prop
  | idle (todo : List (Except Malformed Request)) (answers : List Response) :
    Outside ⟨todo, answers, .idle⟩
  | waiting {request : Except Malformed Request} {e : Errand} (hjob : Desk.job request = .errand e)
    (todo : List (Except Malformed Request)) (answers : List Response) :
    Outside ⟨request :: todo, answers, .waiting e⟩

/-- A caller with the hold, who has found the ledger `before` and is about to leave it as the errand
leaves it. -/
inductive Inside (before : Ledger) : Ledger → Caller → Prop
  | holding {request : Except Malformed Request} {e : Errand} (hjob : Desk.job request = .errand e)
    (todo : List (Except Malformed Request)) (answers : List Response) :
    Inside before before ⟨request :: todo, answers, .holding e⟩
  | running {request : Except Malformed Request} {e : Errand} (hjob : Desk.job request = .errand e)
    {rest : Program Response} {s : Scope} (hledger : s.ledger = before)
    (hrun : rest.run s = e.program.run (Scope.begin before e.access))
    (todo : List (Except Malformed Request)) (answers : List Response) :
    Inside before before ⟨request :: todo, answers, .running e rest s⟩
  | leaving {request : Except Malformed Request} {e : Errand} (hjob : Desk.job request = .errand e)
    {now : Ledger} {response : Response} (hrun : e.run before = (response, now))
    (todo : List (Except Malformed Request)) (answers : List Response) :
    Inside before now ⟨request :: todo, answers, .leaving response⟩

variable {m : Move} {gate gate' : Turnstile} {c c' : Caller} {before now : Ledger}

theorem Inside.todo_ne_nil (h : c.Inside before now) : c.todo ≠ [] := by
  cases h <;> exact List.cons_ne_nil _ _

/-- A caller without the hold can begin with a request or be granted the hold if it is free. -/
theorem Outside.move (h : c.Outside) (hm : c.move? m gate = some (gate', c')) :
    (m ≠ .grant ∧ gate' = gate ∧ c'.todo = c.todo ∧ c'.answers = c.answers ∧ c'.Outside) ∨
    (m ≠ .grant ∧ gate' = gate ∧ ∃ request response, c.todo = request :: c'.todo ∧
      Desk.job request = .reply response ∧ c'.answers = c.answers ++ [response] ∧ c'.Outside) ∨
    (m = .grant ∧ gate.held = false ∧ gate' = { gate with held := true } ∧
      c'.todo = c.todo ∧ c'.answers = c.answers ∧ c'.Inside gate.ledger gate.ledger) := by
  cases h with
  | idle todo answers =>
    rcases todo with _ | ⟨request, todo⟩
    · cases m <;> simp [move?] at hm
    · cases m <;> simp only [move?, reduceCtorEq] at hm
      cases hjob : Desk.job request with
      | reply response =>
        right; left
        rw [hjob] at hm
        obtain ⟨rfl, rfl⟩ := Prod.mk.inj (Option.some.inj hm)
        exact ⟨by simp, rfl, request, response, rfl, hjob, rfl, .idle _ _⟩
      | errand e =>
        left
        rw [hjob] at hm
        obtain ⟨rfl, rfl⟩ := Prod.mk.inj (Option.some.inj hm)
        exact ⟨by simp, rfl, rfl, rfl, .waiting hjob _ _⟩
  | waiting hjob todo answers =>
    cases m <;> simp only [move?, reduceCtorEq] at hm
    right; right
    by_cases hheld : gate.held = true
    · simp [Turnstile.answer, hheld] at hm
    · simp only [Turnstile.answer, if_neg hheld] at hm
      obtain ⟨rfl, rfl⟩ := Prod.mk.inj (Option.some.inj hm)
      exact ⟨rfl, by simpa using hheld, rfl, rfl, rfl, .holding hjob _ _⟩

/-- A caller with the hold goes on with the errand, or leaves with what the errand comes to. -/
theorem Inside.move (h : c.Inside before gate.ledger) (hm : c.move? m gate = some (gate', c')) :
    m ≠ .grant ∧
    ((gate'.held = gate.held ∧ c'.todo = c.todo ∧ c'.answers = c.answers ∧
      c'.Inside before gate'.ledger) ∨
    (gate' = { gate with held := false } ∧ ∃ request e response, c.todo = request :: c'.todo ∧
      Desk.job request = .errand e ∧ e.run before = (response, gate.ledger) ∧
      c'.answers = c.answers ++ [response] ∧ c'.Outside)) := by
  cases h with
  | holding hjob todo answers =>
    cases m <;> simp only [move?, reduceCtorEq] at hm
    obtain ⟨rfl, rfl⟩ := Prod.mk.inj (Option.some.inj hm)
    refine ⟨by simp, Or.inl ⟨rfl, rfl, rfl, ?_⟩⟩
    apply Inside.running hjob
    · rfl
    · rfl
  | running hjob hledger hrun todo answers =>
    rename_i request e rest s
    -- what the scope does next is decided by what is left of the program
    cases rest with
    | done response =>
      cases m <;> simp only [move?, reduceCtorEq] at hm
      obtain ⟨rfl, rfl⟩ := Prod.mk.inj (Option.some.inj hm)
      exact ⟨by simp, Or.inl ⟨rfl, rfl, rfl, .leaving hjob (Errand.run_of_ok hrun.symm) _ _⟩⟩
    | fail fault =>
      cases m <;> simp only [move?, reduceCtorEq] at hm
      obtain ⟨rfl, rfl⟩ := Prod.mk.inj (Option.some.inj hm)
      have hleft : e.run gate.ledger = (e.refusal fault, s.ledger) := by
        rw [Errand.run_of_error hrun.symm, hledger]
      exact ⟨by simp, Or.inl ⟨rfl, rfl, rfl, .leaving hjob hleft _ _⟩⟩
    | step q next =>
      cases m <;> simp only [move?, reduceCtorEq] at hm
      obtain ⟨rfl, rfl⟩ := Prod.mk.inj (Option.some.inj hm)
      have hkept : (s.run q).2.ledger = gate.ledger := (Scope.ledger_run s q).trans hledger
      exact ⟨by simp, Or.inl ⟨rfl, rfl, rfl, .running hjob hkept hrun _ _⟩⟩
  | leaving hjob hrun todo answers =>
    cases m <;> simp only [move?, reduceCtorEq] at hm
    obtain ⟨rfl, rfl⟩ := Prod.mk.inj (Option.some.inj hm)
    exact ⟨by simp, Or.inr ⟨rfl, _, _, _, rfl, hjob, hrun, rfl, .idle _ _⟩⟩

/-- A caller with the hold can always go on. -/
theorem Inside.exists_move (h : c.Inside before now) (gate : Turnstile) :
    ∃ m result, c.move? m gate = some result := by
  cases h with
  | holding hjob todo answers => exact ⟨.enter, _, rfl⟩
  | running hjob hledger hrun todo answers =>
    rename_i request e rest s
    cases rest with
    | done response => exact ⟨.finish, _, rfl⟩
    | fail fault => exact ⟨.finish, _, rfl⟩
    | step q next => exact ⟨.ask, _, rfl⟩
  | leaving hjob hrun todo answers => exact ⟨.leave, _, rfl⟩

/-- A caller who has something to do can go on while the hold is free. -/
theorem Outside.exists_move (h : c.Outside) (htodo : c.todo ≠ []) (hfree : gate.held = false) :
    ∃ m result, c.move? m gate = some result := by
  cases h with
  | idle todo answers =>
    rcases todo with _ | ⟨request, todo⟩
    · exact absurd rfl htodo
    · refine ⟨.start, ?_⟩
      simp only [move?]
      cases Desk.job request with
      | reply response => exact ⟨_, rfl⟩
      | errand e => exact ⟨_, rfl⟩
  | waiting hjob todo answers =>
    refine ⟨.grant, ?_⟩
    simp only [move?, Turnstile.answer, hfree, Bool.false_eq_true, if_false]
    exact ⟨_, rfl⟩

end Caller

/-! ## The place of every caller -/

/-- The holder, if there is one, is on an errand from the ledger `before`, and nobody else has the
hold. -/
structure Placed (before : Ledger) (gate : Turnstile) (holder : Option ι) (callers : ι → Caller) :
    Prop where
  held : gate.held = holder.isSome
  outside : ∀ i, holder ≠ some i → (callers i).Outside
  inside : ∀ i, holder = some i → (callers i).Inside before gate.ledger
  free : holder = none → gate.ledger = before

namespace Placed

variable {before : Ledger} {gate : Turnstile} {holder : Option ι} {callers : ι → Caller} {i : ι}
  {caller : Caller}

/-- A caller moves on without the hold. -/
theorem aside (h : Placed before gate holder callers) (hi : holder ≠ some i)
    (hout : caller.Outside) :
    Placed before gate holder (Function.update callers i caller) where
  held := h.held
  outside j hj := by
    by_cases hji : j = i
    · subst hji
      rw [Function.update_self]
      exact hout
    · rw [Function.update_of_ne hji]
      exact h.outside j hj
  inside j hj := by
    have hji : j ≠ i := fun hji => hi (hji ▸ hj)
    rw [Function.update_of_ne hji]
    exact h.inside j hj
  free := h.free

/-- A caller has the hold. -/
theorem holding (hothers : ∀ j, j ≠ i → (callers j).Outside) (hheld : gate.held = true)
    (hin : caller.Inside before gate.ledger) :
    Placed before gate (some i) (Function.update callers i caller) where
  held := hheld
  outside j hj := by
    have hji : j ≠ i := fun hji => hj (congrArg some hji.symm)
    rw [Function.update_of_ne hji]
    exact hothers j hji
  inside j hj := by
    obtain rfl := Option.some.inj hj
    rw [Function.update_self]
    exact hin
  free hnone := nomatch hnone

/-- A caller has given up the hold. -/
theorem released (hothers : ∀ j, j ≠ i → (callers j).Outside) (hheld : gate.held = false)
    (hledger : gate.ledger = before) (hout : caller.Outside) :
    Placed before gate none (Function.update callers i caller) where
  held := hheld
  outside j _ := by
    by_cases hji : j = i
    · subst hji
      rw [Function.update_self]
      exact hout
    · rw [Function.update_of_ne hji]
      exact hothers j hji
  inside _ hj := nomatch hj
  free _ := hledger

end Placed

/-! ## The invariant -/

/-- The requests in `done` are answered as if one after the other, those that need the ledger in the
order in which the hold was granted, and the holder is on an errand from the ledger that they have
led to. -/
structure Serial (start : Ledger) (requests : ι → List (Except Malformed Request))
    (granted : List ι) (holder : Option ι) (done : List (ι × Except Malformed Request))
    (h : Hall ι) : Prop where
  answered : Answered start requests done h.callers
  placed : Placed (ledgerAfter start done) h.gate holder h.callers
  granted : errands done ++ holder.toList = granted

namespace Serial

variable {start : Ledger} {requests : ι → List (Except Malformed Request)} {granted : List ι}
  {holder : Option ι} {done : List (ι × Except Malformed Request)} {h h' : Hall ι} {i : ι}
  {m : Move}

theorem opening (start : Ledger) (requests : ι → List (Except Malformed Request)) :
    Serial start requests [] none [] (Hall.opening start requests) where
  answered := ⟨fun _ => rfl, fun _ => rfl⟩
  placed := ⟨rfl, fun _ _ => .idle _ _, fun _ hi => (nomatch hi), fun _ => rfl⟩
  granted := rfl

/-- While one caller has the hold, no other one has. -/
theorem others_outside (hs : Serial start requests granted holder done h)
    (hi : holder = none ∨ holder = some i) (j : ι) (hj : j ≠ i) : (h.callers j).Outside := by
  apply hs.placed.outside
  rcases hi with rfl | rfl
  · exact nofun
  · exact fun hij => hj (Option.some.inj hij).symm

/-- Moves of a caller without the hold. -/
theorem step_outside (hs : Serial start requests granted holder done h) (hi : holder ≠ some i)
    {gate : Turnstile} {caller : Caller}
    (hm : (h.callers i).move? m h.gate = some (gate, caller)) :
    ∃ holder' done', Serial start requests (granted ++ grants [(i, m)]) holder' done'
      ⟨gate, Function.update h.callers i caller⟩ := by
  rcases (hs.placed.outside i hi).move hm with
    ⟨hgrant, rfl, htodo, hanswers, hout⟩ |
    ⟨hgrant, rfl, request, response, htodo, hjob, hanswers, hout⟩ |
    ⟨rfl, hfree, rfl, htodo, hanswers, hin⟩
  · -- The request needs the ledger, so the caller now waits.
    refine ⟨holder, done, hs.answered.waits htodo hanswers, hs.placed.aside hi hout, ?_⟩
    rw [grants_of_ne hgrant, List.append_nil]
    exact hs.granted
  · -- The request is answered at once. A holder is not disturbed: `ledgerAfter` stays the same.
    have hanswer : Desk.answer request (ledgerAfter start done) =
        (response, ledgerAfter start done) := by
      rw [← Desk.run_job, hjob]
      rfl
    refine ⟨holder, done ++ [(i, request)], hs.answered.answer htodo ?_, ?_, ?_⟩
    · rw [hanswer]
      exact hanswers
    · rw [ledgerAfter_concat, hanswer]
      exact hs.placed.aside hi hout
    · rw [errands_concat_of_reply hjob, grants_of_ne hgrant, List.append_nil]
      exact hs.granted
  · -- The hold was free, so the ledger is the one that all requests so far have led to.
    obtain rfl : holder = none := by
      have hheld := hs.placed.held
      rw [hfree] at hheld
      exact Option.not_isSome_iff_eq_none.1 (by rw [← hheld]; exact Bool.false_ne_true)
    have hledger := hs.placed.free rfl
    refine ⟨some i, done, hs.answered.waits htodo hanswers, ?_, ?_⟩
    · apply Placed.holding (hs.others_outside (Or.inl rfl)) rfl
      rw [← hledger]
      exact hin
    · have hgranted := hs.granted
      rw [Option.toList_none, List.append_nil] at hgranted
      rw [hgranted]
      rfl

/-- Moves of the caller with the hold. -/
theorem step_inside (hs : Serial start requests granted (some i) done h) {gate : Turnstile}
    {caller : Caller} (hm : (h.callers i).move? m h.gate = some (gate, caller)) :
    ∃ holder' done', Serial start requests (granted ++ grants [(i, m)]) holder' done'
      ⟨gate, Function.update h.callers i caller⟩ := by
  obtain ⟨hgrant, hmove⟩ := (hs.placed.inside i rfl).move hm
  rw [grants_of_ne hgrant, List.append_nil]
  rcases hmove with
    ⟨hheld, htodo, hanswers, hin⟩ |
    ⟨rfl, request, e, response, htodo, hjob, hrun, hanswers, hout⟩
  · refine ⟨some i, done, hs.answered.waits htodo hanswers, ?_, hs.granted⟩
    exact Placed.holding (hs.others_outside (Or.inr rfl)) (hheld.trans hs.placed.held) hin
  · -- The request counts as answered from here on, with the ledger as the errand has left it.
    have hanswer : Desk.answer request (ledgerAfter start done) = (response, h.gate.ledger) := by
      rw [← Desk.run_job, hjob]
      exact hrun
    refine ⟨none, done ++ [(i, request)], hs.answered.answer htodo ?_, ?_, ?_⟩
    · rw [hanswer]
      exact hanswers
    · apply Placed.released (hs.others_outside (Or.inr rfl)) rfl _ hout
      rw [ledgerAfter_concat, hanswer]
    · rw [errands_concat_of_errand hjob, Option.toList_none, List.append_nil]
      exact hs.granted

theorem step (hs : Serial start requests granted holder done h) (hm : h.step? (i, m) = some h') :
    ∃ holder' done', Serial start requests (granted ++ grants [(i, m)]) holder' done' h' := by
  simp only [Hall.step?] at hm
  cases hmove : (h.callers i).move? m h.gate with
  | none =>
    rw [hmove] at hm
    exact nomatch hm
  | some result =>
    rw [hmove] at hm
    obtain rfl := Option.some.inj hm
    by_cases hi : holder = some i
    · subst hi
      exact hs.step_inside hmove
    · exact hs.step_outside hi hmove

theorem run (hs : Serial start requests granted holder done h) {moves : List (ι × Move)}
    (hm : h.run? moves = some h') :
    ∃ holder' done', Serial start requests (granted ++ grants moves) holder' done' h' := by
  induction moves generalizing h granted holder done with
  | nil =>
    obtain rfl := Option.some.inj hm
    refine ⟨holder, done, ?_⟩
    rw [show grants ([] : List (ι × Move)) = [] from rfl, List.append_nil]
    exact hs
  | cons move moves ih =>
    obtain ⟨mid, hstep, hrest⟩ := Option.bind_eq_some_iff.1 hm
    obtain ⟨holder', done', hs'⟩ := hs.step hstep
    rw [grants_cons, ← List.append_assoc]
    exact ih hs' hrest

/-- A holder has something to do. -/
theorem holder_eq_none (hs : Serial start requests granted holder done h)
    (hdone : ∀ i, (h.callers i).todo = []) : holder = none := by
  rcases holder with _ | i
  · rfl
  · exact absurd (hdone i) (hs.placed.inside i rfl).todo_ne_nil

/-- As long as somebody has something to do, somebody can go on. -/
theorem exists_step (hs : Serial start requests granted holder done h)
    (htodo : (h.callers i).todo ≠ []) : ∃ move h', h.step? move = some h' := by
  have hmove : ∃ j m result, (h.callers j).move? m h.gate = some result := by
    rcases holder with _ | j
    · exact ⟨i, (hs.placed.outside i nofun).exists_move htodo hs.placed.held⟩
    · exact ⟨j, (hs.placed.inside j rfl).exists_move h.gate⟩
  obtain ⟨j, m, result, hresult⟩ := hmove
  refine ⟨(j, m), { gate := result.1, callers := Function.update h.callers j result.2 }, ?_⟩
  simp only [Hall.step?, hresult]

end Serial

/-! ## Interleavings -/

namespace Hall

/-- No interleaving leads to where something is left to do and nobody can go on. -/
theorem exists_step_of_run {start : Ledger} {requests : ι → List (Except Malformed Request)}
    {moves : List (ι × Move)} {h : Hall ι} (hrun : (opening start requests).run? moves = some h)
    {i : ι} (htodo : (h.callers i).todo ≠ []) : ∃ move h', h.step? move = some h' := by
  obtain ⟨holder, done, hs⟩ := (Serial.opening start requests).run hrun
  exact hs.exists_step htodo

/-- Whatever the interleaving, the requests are answered as if one after the other, in an order in
which every caller's own requests are in order and those that need the ledger are in the order in
which the hold was granted. -/
theorem interleaving_serializable {start : Ledger}
    {requests : ι → List (Except Malformed Request)} {moves : List (ι × Move)} {last : Hall ι}
    (hrun : (opening start requests).run? moves = some last)
    (hdone : ∀ i, (last.callers i).todo = []) :
    ∃ order : List (ι × Except Malformed Request),
      (∀ i, share i order = requests i) ∧
      errands order = grants moves ∧
      last.gate.ledger = ledgerAfter start order ∧
      ∀ i, (last.callers i).answers = share i (responses start order) := by
  obtain ⟨holder, order, hs⟩ := (Serial.opening start requests).run hrun
  obtain rfl := hs.holder_eq_none hdone
  refine ⟨order, ?_, ?_, hs.placed.free rfl, hs.answered.answers⟩
  · intro i
    have htodo := hs.answered.todo i
    rw [hdone i, List.append_nil] at htodo
    exact htodo
  · have hgranted := hs.granted
    rw [Option.toList_none, List.append_nil, List.nil_append] at hgranted
    exact hgranted

/-- One caller asks for a transfer; the other one wants to know whether anybody is there, and then
what is left on the first account. -/
def payerAndOnlooker : Bool → List (Except Malformed Request)
  | false => [.ok (.transfer ⟨1, 2, Decimal.ofParts 5 0, "rent"⟩)]
  | true => [.ok .ping, .ok (.balance 1)]

/-- Both callers wait, and the one who came later is let in first. -/
def onlookerFirst : List (Bool × Move) :=
  [(false, .start), (true, .start), (true, .start), (true, .grant), (true, .enter), (true, .ask),
    (true, .finish), (true, .leave), (false, .grant), (false, .enter), (false, .ask),
    (false, .finish), (false, .leave)]

/-- A ledger of two accounts. -/
def twoAccounts : Ledger where
  accounts := [
    { id := 1, balance := Decimal.ofParts 700 2, currency := "USD" },
    { id := 2, balance := Decimal.ofParts 0 2, currency := "USD" }]
  ascending := by decide

theorem onlookerFirst_serializable :
    ∃ last, (opening twoAccounts payerAndOnlooker).run? onlookerFirst = some last ∧
      (∀ i, (last.callers i).todo = []) ∧
      ∃ order : List (Bool × Except Malformed Request),
        (∀ i, share i order = payerAndOnlooker i) ∧
        errands order = [true, false] ∧
        last.gate.ledger = ledgerAfter twoAccounts order ∧
        ∀ i, (last.callers i).answers = share i (responses twoAccounts order) := by
  have hpossible : ((opening twoAccounts payerAndOnlooker).run? onlookerFirst).isSome = true := by
    rfl
  obtain ⟨last, hrun⟩ := Option.isSome_iff_exists.1 hpossible
  have hdone : ∀ i, (last.callers i).todo = [] := by
    have hall : ((opening twoAccounts payerAndOnlooker).run? onlookerFirst).map
        (fun h => ((h.callers false).todo.length, (h.callers true).todo.length)) = some (0, 0) := by
      rfl
    rw [hrun, Option.map_some] at hall
    obtain ⟨hpayer, honlooker⟩ := Prod.mk.inj (Option.some.inj hall)
    intro i
    cases i
    · exact List.eq_nil_of_length_eq_zero hpayer
    · exact List.eq_nil_of_length_eq_zero honlooker
  exact ⟨last, hrun, hdone, interleaving_serializable hrun hdone⟩

end Hall

end TransferDesk
