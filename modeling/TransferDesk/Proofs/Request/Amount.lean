import TransferDesk.Proofs.Decimal.Written
import TransferDesk.Proofs.Desk.Effects
import TransferDesk.Proofs.Exactness
import TransferDesk.Proofs.Request.Grammar
import TransferDesk.Proofs.Scope.Balances
/-!
# The amount that is written and the amount that is moved

Between the text of an amount and the money there are two steps. Reading makes a decimal of the
text, and a transfer moves what the decimal stands for (`Ledger.Moves`). The second step is strict:
only a positive number of whole cents is moved. The first one is not, since a decimal has no room
for all the digits that can be written.

So the amount that is written is moved if some decimal stands for it, in front of its exponent and
with it (`moves_amount_written`). Otherwise places too many can be lost before anybody looks at
them, and a transfer is confirmed that was not asked for (`excess_place_is_lost`).
-/

namespace TransferDesk

/-- A number of whole cents above zero is moved between two accounts. The journal says so, and each
of the two balances keeps what it exactly comes to. -/
structure Ledger.Moves (before : Ledger) (source target : AccountId) (q : ℚ) (after : Ledger) :
    Prop where
  cents : ∃ n : ℕ, 0 < n ∧ q = n / 100
  entry : ∃ entry, after.journal = before.journal ++ [entry] ∧ entry.order.source = source ∧
    entry.order.target = target ∧ entry.order.amount.value = q
  debit : ∃ a a', balancesOf before.accounts source = some a ∧
    balancesOf after.accounts source = some a' ∧ a'.Keeps (a.value - q)
  credit : ∃ b b', balancesOf before.accounts target = some b ∧
    balancesOf after.accounts target = some b' ∧ b'.Keeps (b.value + q)

/-- A transfer that is made moves its amount. -/
theorem Ledger.Made.moves {before after : Ledger} {order : TransferOrder} {source target : Account}
    {p : Posting} (h : before.Made order source target p after) :
    before.Moves order.source order.target order.amount.value after := by
  have htakes := h.takes
  have hkeeps := Scope.keeps_of_settled htakes.settled
  have hsource := htakes.balancesOf_source
  have htarget := htakes.balancesOf_target
  have hafter := htakes.balancesOf_update
  rw [Scope.shown_begin] at hsource htarget hafter
  rw [← h.accounts] at hafter
  constructor
  · exact htakes.settled.exists_cents
  · refine ⟨_, h.journal, rfl, rfl, ?_⟩
    -- the amount is booked at two places, which is the same number
    show p.amount.value = order.amount.value
    rw [htakes.settled.booked, Decimal.value_asMoney]
  · refine ⟨source.balance, p.sourceBalance, hsource, ?_, hkeeps.1⟩
    rw [hafter, Function.update_of_ne htakes.order_distinct, Function.update_self]
  · refine ⟨target.balance, p.targetBalance, htarget, ?_, hkeeps.2⟩
    rw [hafter, Function.update_self]

namespace Request

open TransferDesk.Text (tokens)

/-- The fourth token of an order is its amount. -/
theorem exists_amount_token {line : List Char} {order : TransferOrder}
    (h : ofLine line = .ok (.transfer order)) :
    ∃ t, (tokens line)[3]? = some t ∧ Decimal.ofChars? t = some order.amount := by
  have hreads := reads_ofLine line
  rw [h] at hreads
  cases hreads with
  | transfer hverb horder =>
    obtain ⟨t, ht, hspelled⟩ := horder.amount
    exact ⟨t, ht, Decimal.ofChars?_eq_some_iff.2 hspelled⟩

/-- How the amount that is moved stands to the amount that is written. Take a line that is read as
an order. The fourth token is its amount, whatever the number of its digits.

* The amount of the order is the number that is written if and only if some decimal stands for the
significand and some decimal for the number. Otherwise it is off by less than a unit of its last
place.
* If the order is confirmed, by whatever ledger, its amount is a number of whole cents above zero,
and that is what is moved. -/
theorem moves_amount_written {line : List Char} {order : TransferOrder}
    (h : ofLine line = .ok (.transfer order)) :
    ∃ t, (tokens line)[3]? = some t ∧
      (order.amount.value = Decimal.written t ↔
        Decimal.Representable (Decimal.plainNumber (Decimal.significand t)) ∧
          Decimal.Representable (Decimal.written t)) ∧
      |order.amount.value - Decimal.written t| < 1 / 10 ^ order.amount.scale ∧
      ∀ l : Ledger, (Desk.answer (ofLine line) l).1 = .ok →
        l.Moves order.source order.target order.amount.value (Desk.answer (ofLine line) l).2 := by
  obtain ⟨t, ht, hread⟩ := exists_amount_token h
  have hfrom := Decimal.readFrom_of_ofChars? hread
  refine ⟨t, ht, hfrom.exact_iff, hfrom.near, ?_⟩
  intro l hok
  rcases Desk.answer_cases (ofLine line) l with
    ⟨hother, -⟩ | ⟨order', source, target, p, hline, -, hmade⟩
  · exact absurd hok hother
  · rw [h] at hline
    cases hline
    exact hmade.moves

/-- An amount of a little more than one: the last place is the 29th. -/
def excessAmount : List Char :=
  "1.00000000000000000000000000001".toList

/-- A line that asks for that amount. -/
def excessLine : List Char :=
  "TRANSFER 1 2 ".toList ++ excessAmount

/-- A ledger with ten in one of two accounts. -/
def tenAndNothing : Ledger where
  accounts := [
    { id := 1, balance := Decimal.ofParts 1000 2, currency := "EUR" },
    { id := 2, balance := Decimal.ofParts 0 2, currency := "EUR" }]
  ascending := by decide

/-- No number of whole cents is asked for, and no decimal stands for the number that is. Its last
place is lost and the transfer is confirmed. -/
theorem excess_place_is_lost :
    ∃ order, ofLine excessLine = .ok (.transfer order) ∧
      (tokens excessLine)[3]? = some excessAmount ∧
      Decimal.written excessAmount = 1 + 1 / 10 ^ 29 ∧
      (∀ n : ℤ, Decimal.written excessAmount ≠ n / 100) ∧
      ¬ Decimal.Representable (Decimal.written excessAmount) ∧
      order.amount.value = 1 ∧
      (Desk.answer (ofLine excessLine) tenAndNothing).1 = .ok ∧
      tenAndNothing.Moves 1 2 1 (Desk.answer (ofLine excessLine) tenAndNothing).2 := by
  have hline : ofLine excessLine =
      .ok (.transfer ⟨1, 2, Decimal.ofParts (10 ^ 28) 28, "Server transfer"⟩) := by
    decide +kernel
  have hok : (Desk.answer (ofLine excessLine) tenAndNothing).1 = .ok := by
    decide +kernel
  have hwritten : Decimal.written excessAmount = 1 + 1 / 10 ^ 29 := by
    decide +kernel
  have hsignificand : Decimal.plainNumber (Decimal.significand excessAmount) =
      Decimal.written excessAmount := by
    decide +kernel
  have hvalue : (Decimal.ofParts (10 ^ 28) 28).value = 1 := by
    rw [Decimal.value_ofParts (by norm_num) (by norm_num)]
    norm_num
  obtain ⟨t, ht, hexact, -, hmoves⟩ := moves_amount_written hline
  have htoken : (tokens excessLine)[3]? = some excessAmount := by
    decide +kernel
  obtain rfl : excessAmount = t := Option.some.inj (htoken.symm.trans ht)
  have hmoved := hmoves tenAndNothing hok
  simp only [hvalue] at hexact hmoved
  refine ⟨_, hline, htoken, hwritten, ?_, ?_, hvalue, hok, hmoved⟩
  · intro n hn
    rw [hwritten] at hn
    have hint : (100 * 10 ^ 29 + 100 : ℤ) = n * 10 ^ 29 := by
      have hrat : (100 * 10 ^ 29 + 100 : ℚ) = n * 10 ^ 29 := by
        linarith
      exact_mod_cast hrat
    omega
  · intro hrepresentable
    have hone := hexact.2 ⟨hsignificand ▸ hrepresentable, hrepresentable⟩
    rw [hwritten] at hone
    norm_num at hone

end Request

end TransferDesk
