import TransferDesk.Proofs.Decimal.Cents
import TransferDesk.Proofs.Decimal.Notation
import TransferDesk.Proofs.Decimal.Printed
import TransferDesk.Proofs.Decimal.Reading
/-!
# What is shown of money

A decimal is shown with a given number of places. Missing ones are filled up with zeros and further
ones are cut off, but money has only zeros there (`exists_shown`). So what is shown for money is its
exact value, at whatever scale it is kept:

* `fixedNotation_toFixedChars`: there is a digit before the point and exactly two behind it;
* `plainNumber_toFixedChars`: the number that is written is the value;
* `exists_read_toFixedChars`: it can be read again, as a decimal with that value;
* `ShownInFull.toFixedChars_eq_iff`: the same is shown for the same value only.
-/

namespace TransferDesk.Decimal

open TransferDesk.Text (signed)

/-- A number with exactly `places` digits behind the point, at least one in front of it and at most
a minus before them. -/
def FixedNotation (places : ℕ) (t : List Char) : Prop :=
  ∃ sign whole fraction, t = sign ++ whole ++ '.' :: fraction ∧
    (sign = [] ∨ sign = ['-']) ∧ whole ≠ [] ∧ (∀ c ∈ whole, c.isDigit) ∧
    fraction.length = places ∧ ∀ c ∈ fraction, c.isDigit

theorem fixedNotation_toFixedChars {places : ℕ} (hplaces : places ≠ 0) (d : Decimal) :
    FixedNotation places (d.toFixedChars places) := by
  unfold toFixedChars magnitudeText
  rw [if_neg hplaces]
  generalize d.magnitude * Nat.pow 10 (places - d.scale) / Nat.pow 10 (d.scale - places) = n
  have hwhole := Text.digits_toDigits (n / Nat.pow 10 places)
  refine ⟨d.signText, _, fixedDigits places n, (List.append_assoc _ _ _).symm, ?_,
    hwhole.nonempty, hwhole.digits, length_fixedDigits places n, ?_⟩
  · unfold signText
    split
    · exact Or.inr rfl
    · exact Or.inl rfl
  · intro c hc
    exact isDigit_of_mem_fixedDigits hc

/-! ## The value -/

/-- A number that comes to whole units of the last place is shown as these. -/
theorem toFixedChars_of_whole {d : Decimal} {places n : ℕ}
    (h : d.magnitude * 10 ^ places = n * 10 ^ d.scale) :
    d.toFixedChars places = d.signText ++ magnitudeText n places := by
  have hunits : d.magnitude * 10 ^ (places - d.scale) / 10 ^ (d.scale - places) = n := by
    rcases Nat.le_total d.scale places with hle | hle
    · -- zeros are filled up
      rw [Nat.sub_eq_zero_of_le hle, Nat.pow_zero, Nat.div_one]
      obtain ⟨more, rfl⟩ := Nat.exists_eq_add_of_le hle
      rw [Nat.pow_add, Nat.mul_left_comm, Nat.mul_comm n] at h
      rw [Nat.add_sub_cancel_left]
      exact Nat.eq_of_mul_eq_mul_left (Nat.pow_pos (by decide)) h
    · -- zeros are cut off
      rw [Nat.sub_eq_zero_of_le hle, Nat.pow_zero, Nat.mul_one]
      obtain ⟨more, hmore⟩ := Nat.exists_eq_add_of_le hle
      rw [hmore, Nat.pow_add, Nat.mul_left_comm, Nat.mul_comm] at h
      have hzeros := Nat.eq_of_mul_eq_mul_left (Nat.pow_pos (by decide)) h
      rw [hmore, Nat.add_sub_cancel_left, hzeros]
      exact Nat.mul_div_cancel n (Nat.pow_pos (by decide))
  exact congrArg (fun m => d.signText ++ magnitudeText m places) hunits

theorem signed_mul (negative : Bool) (n k : ℕ) :
    signed negative (n * k) = signed negative n * k := by
  unfold signed
  split
  · push_cast
    ring
  · push_cast
    rfl

/-- Money is shown with its sign and its cents, none of which are cut off. -/
theorem exists_shown {d : Decimal} (h : ¬ d.ExceedsMoney) : ∃ n : ℕ,
    d.magnitude * 10 ^ 2 = n * 10 ^ d.scale ∧ d.cents = signed d.negative n ∧
      d.toFixedChars moneyPlaces = d.signText ++ magnitudeText n moneyPlaces := by
  obtain ⟨z, hz⟩ := not_exceedsMoney_iff.1 h
  have hcents : d.coeff * 10 ^ 2 = z * 10 ^ d.scale := by
    have hrat : (d.coeff * 10 ^ 2 : ℚ) = z * 10 ^ d.scale := by
      rw [← value_mul_pow, ← hz, cents]
      ring
    exact_mod_cast hrat
  have hmagnitude : d.magnitude * 10 ^ 2 = z.natAbs * 10 ^ d.scale := by
    have habs := congrArg Int.natAbs hcents
    rwa [Int.natAbs_mul, Int.natAbs_mul, Int.natAbs_pow, Int.natAbs_pow, natAbs_coeff] at habs
  refine ⟨z.natAbs, hmagnitude, ?_, toFixedChars_of_whole hmagnitude⟩
  -- the cents have the sign of the decimal, also where they are zero
  have hsigned : d.coeff * 10 ^ 2 = signed d.negative z.natAbs * 10 ^ d.scale := by
    have hsame := congrArg (signed d.negative) hmagnitude
    rw [signed_mul, signed_mul, ← coeff_eq_signed] at hsame
    exact_mod_cast hsame
  have hint : z = signed d.negative z.natAbs := by
    rw [hcents] at hsigned
    exact mul_right_cancel₀ (pow_ne_zero _ (by decide)) hsigned
  rw [hz]
  exact_mod_cast hint

/-- The number that is written where money is shown is its value. -/
theorem plainNumber_toFixedChars {d : Decimal} (h : ¬ d.ExceedsMoney) :
    plainNumber (d.toFixedChars moneyPlaces) = d.value := by
  obtain ⟨n, -, hcents, htext⟩ := exists_shown h
  obtain ⟨hcoeff, hplaces⟩ := written_signText d n moneyPlaces
  rw [htext, plainNumber, hcoeff, hplaces, ← hcents, cents, moneyPlaces]
  ring

/-! ## Reading it again -/

/-- What is shown of money is plain notation. -/
theorem plainNotation_toFixedChars {d : Decimal} (h : ¬ d.ExceedsMoney) :
    PlainNotation (d.toFixedChars moneyPlaces) := by
  obtain ⟨n, hcents, -, htext⟩ := exists_shown h
  have hless := d.magnitude_lt
  have hbig : Nat.pow 2 96 = 79228162514264337593543950336 := by decide
  rw [hbig] at hless
  have hwhole : n / 10 ^ 2 ≤ d.magnitude := by
    have hpow : 0 < 10 ^ d.scale := Nat.pow_pos (by decide)
    have hle : n ≤ d.magnitude * 10 ^ 2 := by
      rw [hcents]
      exact Nat.le_mul_of_pos_right n hpow
    omega
  unfold PlainNotation
  rw [htext, (unsigned_signText d _ _).1]
  apply legible_magnitudeText
  · rw [hbig]
    exact Nat.lt_of_le_of_lt hwhole hless
  · -- a whole part as great as that leaves no places
    intro hfull
    rw [hbig] at hfull
    change n / 10 ^ 2 + 1 = _ at hfull
    change n % 10 ^ 2 = 0
    rcases hscale : d.scale with _ | places
    · rw [hscale] at hcents
      omega
    · rw [hscale] at hcents
      have hten : n * 10 ≤ n * 10 ^ (places + 1) :=
        Nat.mul_le_mul_left n (Nat.le_self_pow (Nat.succ_ne_zero places) 10)
      omega

/-- What is shown of money can be read again, as a decimal with its value. -/
theorem exists_read_toFixedChars {d : Decimal} (h : ¬ d.ExceedsMoney) :
    ∃ read, ofChars? (d.toFixedChars moneyPlaces) = some read ∧ read.value = d.value := by
  obtain ⟨read, hread⟩ :=
    Option.isSome_iff_exists.1 ((isSome_readPlain_iff _).2 (plainNotation_toFixedChars h))
  have hexact := (readFor_readPlain hread).exact_iff
  rw [plainNumber_toFixedChars h] at hexact
  exact ⟨read, ofChars?_of_readPlain hread, hexact.2 ⟨d, rfl⟩⟩

/-! ## The same is shown for the same value only -/

/-- A decimal that is shown without loss: two places are enough for it, and a zero has no minus. -/
structure ShownInFull (d : Decimal) : Prop where
  money : ¬ d.ExceedsMoney
  zero : d.magnitude = 0 → d.negative = false

theorem ShownInFull.negative_iff {d : Decimal} (h : d.ShownInFull) :
    d.negative = true ↔ d.value < 0 := by
  have hpow : (0 : ℚ) < 10 ^ d.scale := by positivity
  have hsign : d.value < 0 ↔ d.coeff < 0 := by
    rw [value, div_lt_iff₀ hpow, zero_mul]
    exact Int.cast_lt_zero
  rw [hsign, ← decide_coeff_neg h.zero, decide_eq_true_iff]

theorem ShownInFull.toFixedChars_eq_iff {a b : Decimal} (ha : a.ShownInFull) (hb : b.ShownInFull) :
    a.toFixedChars moneyPlaces = b.toFixedChars moneyPlaces ↔ a.value = b.value := by
  constructor
  · intro h
    rw [← plainNumber_toFixedChars ha.money, h, plainNumber_toFixedChars hb.money]
  · intro h
    -- the value determines the sign and the cents, and nothing else is shown
    obtain ⟨n, -, hn, hatext⟩ := exists_shown ha.money
    obtain ⟨m, -, hm, hbtext⟩ := exists_shown hb.money
    have hnegative : a.negative = b.negative := by
      rw [Bool.eq_iff_iff, ha.negative_iff, hb.negative_iff, h]
    have hcents : signed a.negative n = signed a.negative m := by
      have hrat : (signed a.negative n : ℚ) = signed a.negative m := by
        rw [← hn, hnegative, ← hm, cents, cents, h]
      exact_mod_cast hrat
    have hsame : n = m := by
      rw [← natAbs_signed a.negative n, hcents, natAbs_signed]
    rw [hatext, hbtext, hsame, signText, signText, hnegative]

end TransferDesk.Decimal
