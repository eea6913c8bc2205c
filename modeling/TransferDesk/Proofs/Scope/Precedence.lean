import TransferDesk.Proofs.Amount
import TransferDesk.Proofs.Ledger.Payment
import TransferDesk.Proofs.Scope.Acceptance
/-!
# Which rule is named

An order can break several rules at once, and the fault names one of them. Each rule is stated by
itself, with the fault that reports it (`TransferOrder.Breaks`), and `FirstBroken` picks the first
one of a list that is broken.

A scope for writing names the first rule that is broken in the order `Rule.tried`
(`stage_eq_error_iff`): it looks for both accounts before it reads the terms of the order. Were the
terms read first (`Rule.termsFirst`), the fault would be another one exactly if an account is
missing and the terms are broken as well (`firstBroken_swap_iff`).
-/

namespace TransferDesk

/-- A rule for transfers. -/
inductive Rule where
  /-- The amount is above zero and comes to whole cents. -/
  | amount
  | distinct
  | source
  | target
  | currency
  | funds
  /-- The sum at the target is within bounds. The difference at a source that has the funds always
  is. -/
  | limit
deriving DecidableEq, Repr

namespace Rule

/-- The rules about the order itself. -/
def terms : List Rule := [amount, distinct]

/-- The rules that the accounts exist. -/
def parties : List Rule := [source, target]

/-- The rules about the two accounts, which have to exist for them. -/
def effects : List Rule := [currency, funds, limit]

/-- The rules in the order in which they are tried. -/
def tried : List Rule := parties ++ terms ++ effects

/-- The rules, with those about the order itself in front. -/
def termsFirst : List Rule := terms ++ parties ++ effects

end Rule

/-- An order breaks a rule in a scope, which is reported as a fault. -/
inductive TransferOrder.Breaks (order : TransferOrder) (s : Scope) : Rule → Fault → Prop where
  | notPositive (h : order.amount.value ≤ 0) :
    Breaks order s .amount (.invalidAmount order.amount.toText "amount must be positive")
  | notCents (hpositive : 0 < order.amount.value) (h : ¬ ∃ n : ℤ, order.amount.cents = n) :
    Breaks order s .amount
      (.invalidAmount order.amount.toText "amount must have at most 2 decimal places")
  | same (h : order.source = order.target) : Breaks order s .distinct (.sameAccount order.source)
  | noSource (h : s.view? order.source = none) :
    Breaks order s .source (.unknownAccount order.source)
  | noTarget (h : s.view? order.target = none) :
    Breaks order s .target (.unknownAccount order.target)
  | currencies {source target : Account} (hsource : s.view? order.source = some source)
    (htarget : s.view? order.target = some target) (h : source.currency ≠ target.currency) :
    Breaks order s .currency
      (.currencyMismatch order.source source.currency order.target target.currency)
  | uncovered {source : Account} (hsource : s.view? order.source = some source)
    (h : source.balance.value < order.amount.value) :
    Breaks order s .funds (.insufficientFunds order.source source.balance order.amount.asMoney)
  | tooLarge {target : Account} (htarget : s.view? order.target = some target)
    (h : target.balance.add? order.amount = none) :
    Breaks order s .limit (.overflow "transfer credit" order.target)

/-- An order keeps a rule in a scope. -/
def TransferOrder.Keeps (order : TransferOrder) (s : Scope) (rule : Rule) : Prop :=
  ∀ fault, ¬ order.Breaks s rule fault

/-- The first rule of a list that an order breaks is reported as a fault. -/
inductive TransferOrder.FirstBroken (order : TransferOrder) (s : Scope) :
    List Rule → Fault → Prop where
  | here {rule : Rule} {rules : List Rule} {fault : Fault} (h : order.Breaks s rule fault) :
    FirstBroken order s (rule :: rules) fault
  | later {rule : Rule} {rules : List Rule} {fault : Fault} (hkept : order.Keeps s rule)
    (h : FirstBroken order s rules fault) : FirstBroken order s (rule :: rules) fault

namespace TransferOrder

variable {order : TransferOrder} {s : Scope} {rule : Rule} {rules : List Rule} {fault : Fault}
  {source target : Account}

/-! ## Rules that are kept -/

theorem keeps_amount_iff :
    order.Keeps s .amount ↔ 0 < order.amount.value ∧ ∃ n : ℤ, order.amount.cents = n := by
  constructor
  · intro hkept
    have hpositive : 0 < order.amount.value := by
      by_contra h
      exact hkept _ (.notPositive (not_lt.1 h))
    refine ⟨hpositive, ?_⟩
    by_contra h
    exact hkept _ (.notCents hpositive h)
  · rintro ⟨hpositive, hcents⟩ fault hbroken
    cases hbroken with
    | notPositive h => exact absurd hpositive (not_lt.2 h)
    | notCents _ h => exact h hcents

theorem keeps_distinct_iff : order.Keeps s .distinct ↔ order.source ≠ order.target := by
  constructor
  · intro hkept h
    exact hkept _ (.same h)
  · intro hdistinct fault hbroken
    cases hbroken with
    | same h => exact hdistinct h

theorem keeps_source_iff :
    order.Keeps s .source ↔ ∃ source, s.view? order.source = some source := by
  rw [← Option.ne_none_iff_exists']
  constructor
  · intro hkept h
    exact hkept _ (.noSource h)
  · intro hshown fault hbroken
    cases hbroken with
    | noSource h => exact hshown h

theorem keeps_target_iff :
    order.Keeps s .target ↔ ∃ target, s.view? order.target = some target := by
  rw [← Option.ne_none_iff_exists']
  constructor
  · intro hkept h
    exact hkept _ (.noTarget h)
  · intro hshown fault hbroken
    cases hbroken with
    | noTarget h => exact hshown h

theorem keeps_currency_iff (hsource : s.view? order.source = some source)
    (htarget : s.view? order.target = some target) :
    order.Keeps s .currency ↔ source.currency = target.currency := by
  constructor
  · intro hkept
    by_contra h
    exact hkept _ (.currencies hsource htarget h)
  · intro hsame fault hbroken
    cases hbroken with
    | currencies hs ht h =>
      cases hsource.symm.trans hs
      cases htarget.symm.trans ht
      exact h hsame

theorem keeps_funds_iff (hsource : s.view? order.source = some source) :
    order.Keeps s .funds ↔ order.amount.value ≤ source.balance.value := by
  constructor
  · intro hkept
    by_contra h
    exact hkept _ (.uncovered hsource (not_le.1 h))
  · intro hcovered fault hbroken
    cases hbroken with
    | uncovered hs h =>
      cases hsource.symm.trans hs
      exact absurd hcovered (not_le.2 h)

theorem keeps_limit_iff (htarget : s.view? order.target = some target) :
    order.Keeps s .limit ↔ ∃ sum, target.balance.add? order.amount = some sum := by
  rw [← Option.ne_none_iff_exists']
  constructor
  · intro hkept h
    exact hkept _ (.tooLarge htarget h)
  · intro hfits fault hbroken
    cases hbroken with
    | tooLarge ht h =>
      cases htarget.symm.trans ht
      exact hfits h

/-- An order that is allowed keeps every rule. -/
theorem Allowed.keeps (h : order.Allowed s source target) (rule : Rule) : order.Keeps s rule := by
  cases rule with
  | amount => exact keeps_amount_iff.2 ⟨h.positive, h.cents⟩
  | distinct => exact keeps_distinct_iff.2 h.distinct
  | source => exact keeps_source_iff.2 ⟨source, h.shows_source⟩
  | target => exact keeps_target_iff.2 ⟨target, h.shows_target⟩
  | currency => exact (keeps_currency_iff h.shows_source h.shows_target).2 h.currency
  | funds => exact (keeps_funds_iff h.shows_source).2 h.covered
  | limit => exact (keeps_limit_iff h.shows_target).2 h.fits

/-! ## The first rule that is broken -/

/-- A broken rule is reported in one way. -/
theorem Breaks.unique {other : Fault} (h : order.Breaks s rule fault)
    (h' : order.Breaks s rule other) :
    fault = other := by
  cases h with
  | notPositive h =>
    cases h' with
    | notPositive => rfl
    | notCents hpositive => exact absurd hpositive (not_lt.2 h)
  | notCents hpositive h =>
    cases h' with
    | notPositive h' => exact absurd hpositive (not_lt.2 h')
    | notCents => rfl
  | same | noSource | noTarget | tooLarge =>
    cases h'
    rfl
  | currencies hs ht =>
    cases h' with
    | currencies hs' ht' =>
      cases hs.symm.trans hs'
      cases ht.symm.trans ht'
      rfl
  | uncovered hs =>
    cases h' with
    | uncovered hs' =>
      cases hs.symm.trans hs'
      rfl

theorem FirstBroken.unique {other : Fault} (h : order.FirstBroken s rules fault)
    (h' : order.FirstBroken s rules other) : fault = other := by
  induction h with
  | here h =>
    cases h' with
    | here h' => exact h.unique h'
    | later hkept => exact absurd h (hkept _)
  | later hkept _ ih =>
    cases h' with
    | here h' => exact absurd h' (hkept _)
    | later _ h' => exact ih h'

theorem FirstBroken.exists_breaks (h : order.FirstBroken s rules fault) :
    ∃ rule ∈ rules, order.Breaks s rule fault := by
  induction h with
  | here h => exact ⟨_, List.mem_cons_self, h⟩
  | later _ _ ih =>
    obtain ⟨rule, hmem, h⟩ := ih
    exact ⟨rule, List.mem_cons_of_mem _ hmem, h⟩

theorem firstBroken_cons_iff : order.FirstBroken s (rule :: rules) fault ↔
    order.Breaks s rule fault ∨ order.Keeps s rule ∧ order.FirstBroken s rules fault := by
  constructor
  · intro h
    cases h with
    | here h => exact Or.inl h
    | later hkept h => exact Or.inr ⟨hkept, h⟩
  · rintro (h | ⟨hkept, h⟩)
    · exact .here h
    · exact .later hkept h

/-- Rules have a say if all those in front of them are kept. -/
theorem firstBroken_append_iff {front : List Rule} : order.FirstBroken s (front ++ rules) fault ↔
    order.FirstBroken s front fault ∨
      (∀ rule ∈ front, order.Keeps s rule) ∧ order.FirstBroken s rules fault := by
  induction front with
  | nil =>
    have hnil : ¬ order.FirstBroken s [] fault := nofun
    simp [hnil]
  | cons rule front ih =>
    rw [List.cons_append, firstBroken_cons_iff, firstBroken_cons_iff, ih, List.forall_mem_cons,
      and_or_left, or_assoc, and_assoc]

/-- Two groups of rules that are not reported alike can change places if all the rules of one of
them are kept, and only then. -/
theorem firstBroken_swap_iff {front middle : List Rule}
    (hapart : ∀ rule ∈ front, ∀ other ∈ middle, order.Breaks s rule fault →
      ¬ order.Breaks s other fault)
    (h : order.FirstBroken s (front ++ middle ++ rules) fault) :
    order.FirstBroken s (middle ++ front ++ rules) fault ↔
      (∀ rule ∈ front, order.Keeps s rule) ∨ ∀ rule ∈ middle, order.Keeps s rule := by
  have hbroken {group : List Rule} (hfirst : order.FirstBroken s group fault) :
      ¬ ∀ rule ∈ group, order.Keeps s rule := by
    intro hkept
    obtain ⟨rule, hmem, hbreaks⟩ := hfirst.exists_breaks
    exact hkept rule hmem fault hbreaks
  have hone : order.FirstBroken s front fault → ¬ order.FirstBroken s middle fault := by
    intro hfront hmiddle
    obtain ⟨rule, hrule, hbreaks⟩ := hfront.exists_breaks
    obtain ⟨other, hother, hbreaks'⟩ := hmiddle.exists_breaks
    exact hapart rule hrule other hother hbreaks hbreaks'
  rw [List.append_assoc, firstBroken_append_iff, firstBroken_append_iff] at h ⊢
  rcases h with hfront | ⟨hkept, hmiddle | ⟨hkept', hrest⟩⟩
  · -- what is reported is in front: it is still the first if it is all that is broken of the two
    have hnot := hbroken hfront
    have hother := hone hfront
    tauto
  · have hnot := hbroken hmiddle
    tauto
  · tauto

/-! ## What a scope names -/

/-- An amount that cannot be booked breaks the rule about amounts. -/
theorem breaks_of_checkAmount (h : checkAmount order.amount = .error fault) :
    order.Breaks s .amount fault := by
  rcases checkAmount_eq_error_iff.1 h with ⟨hzero, rfl⟩ | ⟨hpositive, hcents, rfl⟩
  · exact .notPositive hzero
  · exact .notCents hpositive hcents

/-- What cannot be booked between two accounts breaks the first of the rules about them. -/
theorem firstBroken_of_book (hsource : s.view? order.source = some source)
    (htarget : s.view? order.target = some target) (hpositive : 0 < order.amount.value)
    (h : book source target order.amount.asMoney = .error fault) :
    order.FirstBroken s (.distinct :: Rule.effects) fault := by
  change order.FirstBroken s [.distinct, .currency, .funds, .limit] fault
  have hfrom : source.id = order.source := (Scope.view?_eq_some_iff.1 hsource).2
  have hto : target.id = order.target := (Scope.view?_eq_some_iff.1 htarget).2
  unfold book at h
  rw [hfrom, hto] at h
  split at h
  · rename_i hsame
    cases h
    exact .here (.same hsame)
  · rename_i hdistinct
    apply FirstBroken.later (keeps_distinct_iff.2 hdistinct)
    split at h
    · rename_i hcurrency
      cases h
      exact .here (.currencies hsource htarget hcurrency)
    · rename_i hcurrency
      apply FirstBroken.later ((keeps_currency_iff hsource htarget).2 (not_not.1 hcurrency))
      split at h
      · rename_i hfunds
        cases h
        exact .here (.uncovered hsource (Decimal.lt_asMoney_iff.1 hfunds))
      · rename_i hfunds
        rw [Decimal.lt_asMoney_iff, not_lt] at hfunds
        apply FirstBroken.later ((keeps_funds_iff hsource).2 hfunds)
        -- the difference has a result, so only the sum can be at fault
        obtain ⟨difference, hdebit⟩ := Decimal.exists_sub?_asMoney hpositive.le hfunds
        rw [hdebit] at h
        simp only at h
        split at h
        · rename_i hcredit
          cases h
          have hmoney := Decimal.value_asMoney order.amount
          exact .here (.tooLarge htarget ((Decimal.add?_eq_none_congr hmoney).1 hcredit))
        · cases h

/-- Between two accounts the terms of an order are read before its effects. -/
theorem firstBroken_of_settle (hsource : s.view? order.source = some source)
    (htarget : s.view? order.target = some target)
    (h : settle source target order.amount = .error fault) :
    order.FirstBroken s (Rule.terms ++ Rule.effects) fault := by
  change order.FirstBroken s (.amount :: .distinct :: Rule.effects) fault
  unfold settle at h
  split at h
  · rename_i found hcheck
    cases h
    exact .here (breaks_of_checkAmount hcheck)
  · rename_i booked hcheck
    obtain ⟨hpositive, hmoney, rfl⟩ := checkAmount_eq_ok_iff.1 hcheck
    rw [Decimal.positive_iff_value_pos] at hpositive
    apply FirstBroken.later (keeps_amount_iff.2 ⟨hpositive, Decimal.not_exceedsMoney_iff.1 hmoney⟩)
    exact firstBroken_of_book hsource htarget hpositive h

theorem firstBroken_of_stage (hwrites : s.access = .readWrite) (h : s.stage order = .error fault) :
    order.FirstBroken s Rule.tried fault := by
  change order.FirstBroken s (.source :: .target :: (Rule.terms ++ Rule.effects)) fault
  unfold Scope.stage at h
  rw [if_neg (by rw [hwrites]; decide)] at h
  split at h
  · rename_i hsource
    cases h
    exact .here (.noSource hsource)
  · rename_i source hsource
    refine .later (keeps_source_iff.2 ⟨source, hsource⟩) ?_
    split at h
    · rename_i htarget
      cases h
      exact .here (.noTarget htarget)
    · rename_i target htarget
      refine .later (keeps_target_iff.2 ⟨target, htarget⟩) ?_
      split at h
      · rename_i found hsettle
        cases h
        exact firstBroken_of_settle hsource htarget hsettle
      · cases h

/-- A scope for writing refuses an order with the first rule that is broken. -/
theorem stage_eq_error_iff (hwrites : s.access = .readWrite) :
    s.stage order = .error fault ↔ order.FirstBroken s Rule.tried fault := by
  constructor
  · exact firstBroken_of_stage hwrites
  · intro hfirst
    rcases hstage : s.stage order with found | after
    · rw [(firstBroken_of_stage hwrites hstage).unique hfirst]
    · -- an order that is taken breaks no rule
      obtain ⟨source, target, p, ht, -⟩ := Scope.stage_eq_ok_iff.1 hstage
      obtain ⟨rule, -, hbreaks⟩ := hfirst.exists_breaks
      exact absurd hbreaks (ht.allowed.keeps rule fault)

/-- The faults about the accounts of an order are not those about its terms. -/
theorem parties_apart_terms :
    ∀ rule ∈ Rule.parties, ∀ other ∈ Rule.terms, order.Breaks s rule fault →
    ¬ order.Breaks s other fault := by
  intro rule hrule other hother hbreaks hbreaks'
  simp only [Rule.parties, Rule.terms, List.mem_cons, List.not_mem_nil, or_false] at hrule hother
  rcases hrule with rfl | rfl <;> rcases hother with rfl | rfl <;> cases hbreaks <;> cases hbreaks'

end TransferOrder

/-! ## What a client reads -/

/-- The line of a refused transfer is the fault that it is refused with, behind the same words. -/
theorem Response.line_transferFailed (fault : Fault) :
    (Response.error (Fault.transferFailed fault).message).line =
      "ERROR Transfer failed: ".toList ++ fault.message.toList.map onOneLine := by
  show "ERROR ".toList ++ ("Transfer failed: " ++ fault.message).toList.map onOneLine = _
  rw [String.toList_append, List.map_append, ← List.append_assoc]
  rfl

/-- An active scope for writing names the first broken rule.

* It refuses an order with a fault if and only if that reports the first rule that is broken, both
  accounts tried before the terms of the order.
* With the terms in front it would be the same rule if and only if both accounts exist or the terms
are kept.
* At the desk the ledger stays as it is, and the client reads the fault. -/
theorem Scope.refused_with_first_rule_tried {s : Scope} (hactive : s.aborted = false)
    (hwrites : s.access = .readWrite) (order : TransferOrder) (fault : Fault) :
    ((s.run (.transfer order)).1 = .error fault ↔ order.FirstBroken s Rule.tried fault) ∧
    ((s.run (.transfer order)).1 = .error fault →
      (order.FirstBroken s Rule.termsFirst fault ↔
        ((∃ source, s.view? order.source = some source) ∧
          ∃ target, s.view? order.target = some target) ∨
        (0 < order.amount.value ∧ ∃ n : ℤ, order.amount.cents = n) ∧ order.source ≠ order.target)) ∧
    ∀ l : Ledger, order.FirstBroken (begin l .readWrite) Rule.tried fault →
      ∃ message, Desk.answer (.ok (.transfer order)) l = (.error message, l) ∧
        (Response.error message).line =
          "ERROR Transfer failed: ".toList ++ fault.message.toList.map Response.onOneLine := by
  have htried : (s.run (.transfer order)).1 = .error fault ↔
      order.FirstBroken s Rule.tried fault := by
    rw [← TransferOrder.stage_eq_error_iff hwrites]
    rcases hstage : s.stage order with found | after
    · simp [run_transfer_of_error hactive hstage]
    · simp [run_transfer_of_ok hactive hstage]
  refine ⟨htried, ?_, ?_⟩
  · intro hrefused
    have hswap :=
      TransferOrder.firstBroken_swap_iff TransferOrder.parties_apart_terms (htried.1 hrefused)
    rw [← TransferOrder.keeps_source_iff, ← TransferOrder.keeps_target_iff,
      ← TransferOrder.keeps_amount_iff, ← TransferOrder.keeps_distinct_iff]
    simp only [Rule.parties, Rule.terms, List.forall_mem_cons, List.not_mem_nil, false_implies,
      implies_true, and_true] at hswap
    exact hswap
  · intro l hfirst
    have hstage := (TransferOrder.stage_eq_error_iff (s := begin l .readWrite) rfl).2 hfirst
    refine ⟨(Fault.transferFailed fault).message, ?_, Response.line_transferFailed fault⟩
    rw [Desk.answer_transfer, Ledger.transfer_of_refused hstage]
    rfl

/-- A ledger of one account. -/
def oneAccount : Ledger where
  accounts := [{ id := 1, balance := Decimal.ofParts 1000 2, currency := "USD" }]
  ascending := by decide

/-- An order for less than nothing, to an account that does not exist. -/
def strayDebit : TransferOrder :=
  ⟨1, 99, Decimal.ofParts (-5) 0, "Server transfer"⟩

/-- The account is named and not the amount, which breaks the rules as well. -/
theorem strayDebit_refused :
    Request.ofLine "TRANSFER 1 99 -5".toList = .ok (.transfer strayDebit) ∧
    ((Scope.begin oneAccount .readWrite).run (.transfer strayDebit)).1 =
      .error (.unknownAccount 99) ∧
    strayDebit.FirstBroken (Scope.begin oneAccount .readWrite) Rule.tried (.unknownAccount 99) ∧
    strayDebit.FirstBroken (Scope.begin oneAccount .readWrite) Rule.termsFirst
      (.invalidAmount "-5" "amount must be positive") ∧
    ¬ strayDebit.FirstBroken (Scope.begin oneAccount .readWrite) Rule.termsFirst
      (.unknownAccount 99) ∧
    ∃ message, Desk.answer (.ok (.transfer strayDebit)) oneAccount = (.error message, oneAccount) ∧
      (Response.error message).line = "ERROR Transfer failed: Account not found: 99".toList := by
  have hrun : ((Scope.begin oneAccount .readWrite).run (.transfer strayDebit)).1 =
      .error (.unknownAccount 99) := by
    decide +kernel
  have hnegative : strayDebit.amount.value ≤ 0 := by
    have hvalue : strayDebit.amount.value = -5 := by
      rw [show strayDebit.amount = Decimal.ofParts (-5) 0 from rfl,
        Decimal.value_ofParts (by norm_num) (by norm_num)]
      norm_num
    linarith
  obtain ⟨htried, hterms, hdesk⟩ :=
    Scope.refused_with_first_rule_tried (s := Scope.begin oneAccount .readWrite) rfl rfl strayDebit
      (.unknownAccount 99)
  have hfirst := htried.1 hrun
  obtain ⟨message, hanswer, hline⟩ := hdesk oneAccount hfirst
  refine ⟨by decide +kernel, hrun, hfirst, .here (.notPositive hnegative), ?_, message, hanswer, ?_⟩
  · intro hother
    rcases (hterms hrun).1 hother with ⟨-, target, htarget⟩ | ⟨⟨hpositive, -⟩, -⟩
    · have hnone : (Scope.begin oneAccount .readWrite).view? strayDebit.target = none := by
        decide +kernel
      rw [hnone] at htarget
      cases htarget
    · exact absurd hpositive (not_lt.2 hnegative)
  · rw [hline]
    decide +kernel

end TransferDesk
