import Mathlib.Algebra.Order.Field.Power
import Mathlib.Data.List.TakeWhile
import TransferDesk.Proofs.Decimal.Direction
import TransferDesk.Proofs.Decimal.Notation
import TransferDesk.Proofs.Decimal.Reading
/-!
# The number that is written

A text in either notation stands for an exact number, whatever the number of its digits: its
significand times ten to the power of its exponent (`written`).

What is read from it is that number if and only if some decimal stands for the significand and some
decimal for the number, and otherwise it is off by less than a unit of its last place
(`readFrom_of_ofChars?`). That the number itself fits is not enough: a significand that is cut has
lost what a positive exponent would have brought in front of the point.
-/

namespace TransferDesk.Decimal

open TransferDesk.Text (Numeral signed)

/-! ## Significand and exponent -/

/-- The text in front of the exponent. -/
def significand (t : List Char) : List Char :=
  t.takeWhile (!isMark ·)

/-- The number of an exponent, with a minus or without. -/
def exponentNumber : List Char → ℤ
  | '-' :: digits => -(Nat.ofDigitChars 10 (digitsOf digits) 0 : ℤ)
  | digits => Nat.ofDigitChars 10 (digitsOf digits) 0

/-- The exponent of a text. It is zero if there is none. -/
def exponent (t : List Char) : ℤ :=
  exponentNumber (t.dropWhile (!isMark ·)).tail

/-- The exact number that a text stands for, in plain or in scientific notation. -/
def written (t : List Char) : ℚ :=
  plainNumber (significand t) * 10 ^ exponent t

theorem significand_of_readPlain {t : List Char} {d : Decimal} (h : readPlain t = some d) :
    significand t = t ∧ written t = plainNumber t := by
  have hbase := no_mark_of_readPlain h
  have htake : significand t = t := List.takeWhile_eq_self_iff.2 hbase
  have hdrop : t.dropWhile (!isMark ·) = [] := List.dropWhile_eq_nil_iff.2 hbase
  refine ⟨htake, ?_⟩
  have hexponent : exponent t = 0 := by
    unfold exponent
    rw [hdrop]
    rfl
  unfold written
  rw [htake, hexponent, zpow_zero, mul_one]

/-- The two parts of a text in scientific notation. -/
theorem parts_of_mark {base : List Char} {mark : Char} {d : Decimal}
    (hbase : readPlain base = some d) (hmark : mark = 'e' ∨ mark = 'E') (rest : List Char) :
    significand (base ++ mark :: rest) = base ∧
      exponent (base ++ mark :: rest) = exponentNumber rest := by
  have hplain := no_mark_of_readPlain hbase
  have hstop : (!isMark mark) = false := by
    rw [isMark_iff.2 hmark]
    rfl
  obtain ⟨htake, hdrop⟩ := Text.cut_at_stop (p := (!isMark ·)) hplain hstop rest
  unfold significand exponent
  rw [htake, hdrop]
  exact ⟨rfl, rfl⟩

theorem ofDigitChars_digitsOf_numeral {s : List Char} {e : ℕ} (h : Numeral s e)
    (hbare : s.head? ≠ some '-') : Nat.ofDigitChars 10 (digitsOf s) 0 = e := by
  have hdigits {t : List Char} (ht : ∀ c ∈ t, c.isDigit) : digitsOf t = t :=
    List.filter_eq_self.2 ht
  generalize hz : (e : ℤ) = z at h
  cases h with
  | bare h =>
    rw [hdigits h.digits, ← h.value]
    exact_mod_cast hz.symm
  | @plus t n h =>
    have hsign : digitsOf ('+' :: t) = digitsOf t := rfl
    rw [hsign, hdigits h.digits, ← h.value]
    exact_mod_cast hz.symm
  | minus h => exact absurd rfl hbare

theorem exponentNumber_bare {s : List Char} {e : ℕ} (h : Numeral s e) (hbare : s.head? ≠ some '-') :
    exponentNumber s = e := by
  rw [← ofDigitChars_digitsOf_numeral h hbare]
  unfold exponentNumber
  split
  · exact absurd rfl hbare
  · rfl

theorem exponentNumber_minus {s : List Char} {e : ℕ} (h : Numeral s e)
    (hbare : s.head? ≠ some '-') :
    exponentNumber ('-' :: s) = -e := by
  rw [← ofDigitChars_digitsOf_numeral h hbare]
  rfl

/-! ## Moving the point -/

/-- A positive exponent is applied exactly. -/
theorem value_shiftUp? {d₀ d : Decimal} {e : ℕ} (h : d₀.shiftUp? e = some d) :
    d.value = d₀.value * 10 ^ e ∧ d.scale = d₀.scale - e := by
  unfold shiftUp? at h
  split at h
  · rename_i hle
    obtain ⟨hcoeff, hscale⟩ := ofParts?_eq_some h
    refine ⟨?_, hscale⟩
    have h0 := pow_ten_ne_zero e
    have h1 := pow_ten_ne_zero d₀.scale
    rw [value, value, hcoeff, hscale, pow_ten_sub hle]
    field_simp
  · rename_i hgt
    split at h
    · cases h
    · obtain ⟨hcoeff, hscale⟩ := ofParts?_eq_some h
      have hless : d₀.scale ≤ e := by omega
      refine ⟨?_, by rw [hscale]; omega⟩
      have h1 := pow_ten_ne_zero d₀.scale
      have hcoeff : d.coeff = d₀.coeff * 10 ^ (e - d₀.scale) := hcoeff
      rw [value, value, hcoeff, hscale]
      push_cast
      rw [pow_ten_sub hless]
      field_simp

/-- Rounding a half up moves a number by at most half a unit of what is kept. -/
theorem two_mul_abs_roundHalfUp_sub_le (n : ℕ) {p : ℕ} (hp : 0 < p) :
    2 * |(roundHalfUp n p * p - n : ℤ)| ≤ p := by
  have hdiv := Nat.div_add_mod (2 * n + p) (2 * p)
  have hmod := Nat.mod_lt (2 * n + p) (show 0 < 2 * p by omega)
  have hproduct : 2 * p * ((2 * n + p) / (2 * p)) = 2 * (roundHalfUp n p * p) := by
    unfold roundHalfUp
    ring
  have hcast : (roundHalfUp n p * p : ℤ) = (roundHalfUp n p * p : ℕ) := by
    push_cast
    rfl
  rw [hproduct] at hdiv
  rw [hcast]
  rcases abs_cases ((roundHalfUp n p * p : ℕ) - n : ℤ) with ⟨habs, -⟩ | ⟨habs, -⟩
  · rw [habs]
    omega
  · rw [habs]
    omega

theorem ofSigned?_eq_some {negative : Bool} {magnitude scale : ℕ} {d : Decimal}
    (h : ofSigned? negative magnitude scale = some d) :
    d.coeff = signed negative magnitude ∧ d.scale = scale := by
  unfold ofSigned? at h
  split at h
  · obtain rfl := Option.some.inj h
    exact ⟨rfl, rfl⟩
  · cases h

/-- The same of a number with a sign. -/
theorem two_mul_abs_signed_roundHalfUp_sub_le (negative : Bool) (n : ℕ) {p : ℕ} (hp : 0 < p) :
    2 * |signed negative (roundHalfUp n p) * p - signed negative n| ≤ p := by
  have hround := two_mul_abs_roundHalfUp_sub_le n hp
  unfold signed
  cases negative with
  | false => exact hround
  | true =>
    have hneg : -(roundHalfUp n p : ℤ) * p - -n = -(roundHalfUp n p * p - n) := by ring
    simp only [if_true]
    rw [hneg, abs_neg]
    exact hround

section Rounded

variable {d : Decimal} {c : ℤ} {k : ℕ}

/-- What a number with `k` places too many loses when it is brought to 28. -/
theorem value_sub_eq (hscale : d.scale = 28) :
    d.value - c / 10 ^ (28 + k) = (d.coeff * 10 ^ k - c : ℤ) / (10 ^ 28 * 10 ^ k) := by
  have hk := pow_ten_ne_zero k
  rw [value, hscale, pow_add]
  push_cast
  field_simp

theorem abs_value_sub_le_of_rounded (hscale : d.scale = 28)
    (herror : 2 * |d.coeff * 10 ^ k - c| ≤ 10 ^ k) :
    |d.value - c / 10 ^ (28 + k)| ≤ 1 / 2 / 10 ^ 28 := by
  have hk : (0 : ℚ) < 10 ^ k := by positivity
  have herror : 2 * |((d.coeff * 10 ^ k - c : ℤ) : ℚ)| ≤ 10 ^ k := by exact_mod_cast herror
  rw [value_sub_eq hscale, abs_div, abs_of_pos (by positivity : (0 : ℚ) < 10 ^ 28 * 10 ^ k),
    div_le_div_iff₀ (by positivity) (by positivity)]
  nlinarith

/-- A number that some decimal stands for is not changed by rounding. -/
theorem value_eq_of_rounded (hscale : d.scale = 28)
    (herror : 2 * |d.coeff * 10 ^ k - c| ≤ 10 ^ k)
    (h : Representable ((c : ℚ) / 10 ^ (28 + k))) : d.value = c / 10 ^ (28 + k) := by
  obtain ⟨exact, hexact⟩ := h
  have hk : (10 : ℚ) ^ k ≠ 0 := pow_ten_ne_zero k
  -- a number with 28 places is whole in units of the last of them
  have hwhole : c = exact.coeffAt 28 * 10 ^ k := by
    rw [value_eq_coeffAt exact.scale_le, pow_add] at hexact
    field_simp at hexact
    exact_mod_cast hexact.symm
  have hunits : d.coeff * 10 ^ k - c = (d.coeff - exact.coeffAt 28) * 10 ^ k := by
    rw [hwhole]
    ring
  have hpos : (0 : ℤ) < 10 ^ k := by positivity
  rw [hunits, abs_mul, abs_of_pos hpos] at herror
  have hzero : |d.coeff - exact.coeffAt 28| < 1 := by
    by_contra hone
    have hless := mul_le_mul_of_nonneg_right (not_lt.1 hone) hpos.le
    linarith
  rw [Int.abs_lt_one_iff] at hzero
  have hnothing : d.value - c / 10 ^ (28 + k) = 0 := by
    rw [value_sub_eq hscale, hunits, hzero]
    simp
  linarith

end Rounded

/-- A negative exponent is applied exactly if there are places for it. Otherwise the number is
rounded to 28 places, and stays what it is if it has no more. -/
theorem value_shiftDown? {d₀ d : Decimal} {e : ℕ} (h : d₀.shiftDown? e = some d) :
    d.value = d₀.value / 10 ^ e ∧ d.scale = d₀.scale + e ∨
      28 < d₀.scale + e ∧ d.scale = 28 ∧ |d.value - d₀.value / 10 ^ e| ≤ 1 / 2 / 10 ^ 28 ∧
        (Representable (d₀.value / 10 ^ e) → d.value = d₀.value / 10 ^ e) := by
  have hquotient : d₀.value / 10 ^ e = d₀.coeff / 10 ^ (d₀.scale + e) := by
    rw [value, div_div, pow_add]
  unfold shiftDown? at h
  split at h
  · cases h
  split at h
  · left
    obtain ⟨hcoeff, hscale⟩ := ofSigned?_eq_some h
    refine ⟨?_, hscale⟩
    rw [hquotient, value, hcoeff, hscale, coeff_eq_signed d₀]
  · right
    rename_i hmore
    obtain ⟨hcoeff, hscale⟩ := ofSigned?_eq_some h
    obtain ⟨k, hk⟩ : ∃ k, d₀.scale + e = 28 + k := ⟨d₀.scale + e - 28, by omega⟩
    have hless : d₀.scale + e - 28 = k := by omega
    rw [hless] at hcoeff
    -- the error of the rounding, in units of the place that the number ends with
    have herror : 2 * |d.coeff * 10 ^ k - d₀.coeff| ≤ 10 ^ k := by
      have hround := two_mul_abs_signed_roundHalfUp_sub_le d₀.negative d₀.magnitude
        (Nat.pow_pos (n := k) (show 0 < 10 by decide))
      push_cast at hround
      rw [hcoeff, coeff_eq_signed d₀]
      exact hround
    rw [hquotient, hk]
    exact ⟨by omega, hscale, abs_value_sub_le_of_rounded hscale herror,
      value_eq_of_rounded hscale herror⟩

/-! ## What is read -/

/-- How a decimal that is read stands to the text that it is read from. -/
structure ReadFrom (d : Decimal) (t : List Char) : Prop where
  exact_iff : d.value = written t ↔
    Representable (plainNumber (significand t)) ∧ Representable (written t)
  near : |d.value - written t| < 1 / 10 ^ d.scale

/-- A number that is read is less than a unit off, and fits in 96 bits in front of the point. -/
theorem ReadFor.abs_lt {d : Decimal} {q : ℚ} (h : d.ReadFor q) : |q| < 2 ^ 96 := by
  have hpow : (1 : ℚ) ≤ 10 ^ d.scale := one_le_pow₀ (by norm_num)
  have hone : 1 / (10 : ℚ) ^ d.scale ≤ 1 := by
    rw [div_le_one (by positivity)]
    exact hpow
  have hvalue : |d.value| ≤ 2 ^ 96 - 1 := by
    have hzero := abs_value_mul_pow_lt (Nat.zero_le d.scale)
    rwa [pow_zero, mul_one] at hzero
  have htriangle := abs_sub_abs_le_abs_sub q d.value
  rw [abs_sub_comm] at htriangle
  have hnear := h.near
  linarith

/-- A number that is read has no more places than its quotient by a power of ten. -/
theorem ReadFor.representable_of_div {d : Decimal} {q : ℚ} (h : d.ReadFor q) {e : ℕ}
    (hq : Representable (q / 10 ^ e)) : Representable q := by
  obtain ⟨quotient, hquotient⟩ := hq
  have he := pow_ten_ne_zero e
  have hvalue : q = quotient.coeff * 10 ^ e / 10 ^ quotient.scale := by
    rw [div_eq_mul_inv, mul_right_comm, ← div_eq_mul_inv]
    change q = quotient.value * 10 ^ e
    rw [hquotient, div_mul_cancel₀ _ he]
  rcases Nat.lt_or_ge quotient.scale e with hless | hge
  · -- no place is left, so the number is whole
    have hwhole : q = (quotient.coeff * 10 ^ (e - quotient.scale) : ℤ) := by
      rw [hvalue]
      push_cast
      rw [pow_ten_sub hless.le, mul_div_assoc]
    have hlt := h.abs_lt
    rw [hwhole] at hlt
    have hlt : |quotient.coeff * 10 ^ (e - quotient.scale)| < 2 ^ 96 := by exact_mod_cast hlt
    obtain ⟨whole, -, hcoeff, hscale⟩ := ofParts?_of_lt hlt (Nat.zero_le 28)
    refine ⟨whole, ?_⟩
    rw [value, hcoeff, hscale, pow_zero, div_one, hwhole]
  · have hplaces : quotient.scale - e ≤ 28 := le_trans (Nat.sub_le _ _) quotient.scale_le
    obtain ⟨fewer, -, hcoeff, hscale⟩ := ofParts?_of_lt (abs_coeff_lt quotient) hplaces
    refine ⟨fewer, ?_⟩
    rw [value, hcoeff, hscale, hvalue, pow_ten_sub hge]
    field_simp

/-- A text in scientific notation with a positive exponent, or with none of a sign. -/
theorem ReadFor.shiftUp {d₀ d : Decimal} {b : ℚ} {e : ℕ} (h : d₀.ReadFor b)
    (hshift : d₀.shiftUp? e = some d) :
    (d.value = b * 10 ^ e ↔ Representable b ∧ Representable (b * 10 ^ e)) ∧
      |d.value - b * 10 ^ e| < 1 / 10 ^ d.scale := by
  obtain ⟨hvalue, hscale⟩ := value_shiftUp? hshift
  have he : (0 : ℚ) < 10 ^ e := by positivity
  have hexact : d.value = b * 10 ^ e ↔ Representable b := by
    rw [hvalue, mul_left_inj' he.ne', h.exact_iff]
  constructor
  · constructor
    · intro hd
      exact ⟨hexact.1 hd, d, hd⟩
    · intro hb
      exact hexact.2 hb.1
  · have hdiff : |d.value - b * 10 ^ e| = |d₀.value - b| * 10 ^ e := by
      rw [hvalue, ← sub_mul, abs_mul, abs_of_pos he]
    rcases Nat.lt_or_ge d₀.scale e with hless | hge
    · -- a number with room for the exponent was not cut
      obtain ⟨hsmall, hroom⟩ := (isSome_shiftUp?_iff d₀ e).1 (Option.isSome_of_eq_some hshift)
      rcases h.exact_or_full with hsame | ⟨-, hplaces | hfull⟩
      · rw [hdiff, hsame, sub_self, abs_zero, zero_mul]
        positivity
      · omega
      · exfalso
        have hten : 10 ≤ 10 ^ (e - d₀.scale) := Nat.le_self_pow (by omega) 10
        have hmore := Nat.mul_le_mul_left d₀.magnitude hten
        have hbig : Nat.pow 2 96 = 2 ^ 96 := rfl
        omega
    · rw [hdiff, hscale, pow_ten_sub hge, one_div_div, ← mul_one_div, mul_comm]
      exact mul_lt_mul_of_pos_left h.near he

/-- A text in scientific notation with a negative exponent. -/
theorem ReadFor.shiftDown {d₀ d : Decimal} {b : ℚ} {e : ℕ} (h : d₀.ReadFor b)
    (hshift : d₀.shiftDown? e = some d) :
    (d.value = b / 10 ^ e ↔ Representable b ∧ Representable (b / 10 ^ e)) ∧
      |d.value - b / 10 ^ e| < 1 / 10 ^ d.scale := by
  have he : (0 : ℚ) < 10 ^ e := by positivity
  have hdiff : |d₀.value / 10 ^ e - b / 10 ^ e| = |d₀.value - b| / 10 ^ e := by
    rw [← sub_div, abs_div, abs_of_pos he]
  have hnear : |d₀.value / 10 ^ e - b / 10 ^ e| < 1 / 10 ^ (d₀.scale + e) := by
    rw [hdiff, pow_add, ← div_div]
    exact div_lt_div_of_pos_right h.near he
  constructor
  · constructor
    · intro hd
      have hquotient : Representable (b / 10 ^ e) := ⟨d, hd⟩
      exact ⟨h.representable_of_div hquotient, hquotient⟩
    · rintro ⟨hb, hquotient⟩
      rw [← h.exact_iff.2 hb] at hquotient ⊢
      rcases value_shiftDown? hshift with ⟨hvalue, -⟩ | ⟨-, -, -, hexact⟩
      · exact hvalue
      · exact hexact hquotient
  · rcases value_shiftDown? hshift with ⟨hvalue, hscale⟩ | ⟨hmore, hscale, herror, -⟩
    · rw [hvalue, hscale]
      exact hnear
    · -- the cut came behind the last place that is kept, so that it adds a tenth of it at most
      have htenth : 1 / (10 : ℚ) ^ (d₀.scale + e) ≤ 1 / 10 ^ 29 :=
        one_div_le_one_div_of_le (by positivity) (pow_le_pow_right₀ (by norm_num) hmore)
      have htriangle := abs_sub_le d.value (d₀.value / 10 ^ e) (b / 10 ^ e)
      rw [hscale]
      norm_num at herror hnear htenth ⊢
      linarith

/-- What is read from a text is the number that is written if and only if some decimal stands for
its significand and some decimal for itself. Otherwise it is off by less than a unit of its last
place. -/
theorem readFrom_of_ofChars? {t : List Char} {d : Decimal} (h : ofChars? t = some d) :
    d.ReadFrom t := by
  rcases ofChars?_eq_some_iff.1 h with ⟨-, hplain⟩ | ⟨-, hscientific⟩
  · obtain ⟨hsignificand, hwritten⟩ := significand_of_readPlain hplain
    have hread := readFor_readPlain hplain
    refine ⟨?_, ?_⟩
    · rw [hsignificand, hwritten, and_self, hread.exact_iff]
    · rw [hwritten]
      exact hread.near
  · cases hscientific with
    | @down base digits mark d₀ e hmark hbase hexponent hbare hd =>
      obtain ⟨hsignificand, hnumber⟩ := parts_of_mark hbase hmark ('-' :: digits)
      have hwritten : written (base ++ mark :: '-' :: digits) = plainNumber base / 10 ^ e := by
        unfold written
        rw [hsignificand, hnumber, exponentNumber_minus hexponent hbare, zpow_neg, zpow_natCast,
          ← div_eq_mul_inv]
      obtain ⟨hexact, hnear⟩ := (readFor_readPlain hbase).shiftDown hd
      rw [← hwritten] at hexact hnear
      refine ⟨?_, hnear⟩
      rw [hsignificand]
      exact hexact
    | @up base digits mark d₀ e hmark hbase hexponent hbare hd =>
      obtain ⟨hsignificand, hnumber⟩ := parts_of_mark hbase hmark digits
      have hwritten : written (base ++ mark :: digits) = plainNumber base * 10 ^ e := by
        unfold written
        rw [hsignificand, hnumber, exponentNumber_bare hexponent hbare, zpow_natCast]
      obtain ⟨hexact, hnear⟩ := (readFor_readPlain hbase).shiftUp hd
      rw [← hwritten] at hexact hnear
      refine ⟨?_, hnear⟩
      rw [hsignificand]
      exact hexact

/-- The significand has one place too many and is read as zero, though the number itself would
fit. -/
example :
    (ofText? "0.00000000000000000000000000001e5").map Decimal.value = some 0 ∧
      written "0.00000000000000000000000000001e5".toList = 1 / 10 ^ 24 := by
  decide +kernel

end TransferDesk.Decimal
