import Mathlib.Algebra.Group.Nat.Defs
import TransferDesk.Decimal.Printer
import TransferDesk.Decimal.Units
import TransferDesk.Proofs.Decimal.Plain
/-!
# Reading what is printed

What is printed for a decimal is plain notation and is read back as the same decimal, places
included (`readPlain_toChars`).
-/

namespace TransferDesk.Decimal

open TransferDesk.Text (signed)

theorem length_fixedDigits (width n : Nat) : (fixedDigits width n).length = width := by
  induction width generalizing n with
  | zero => rfl
  | succ width ih => rw [fixedDigits, List.length_append, ih, List.length_singleton]

theorem digitsOf_of_digits {cs : List Char} (h : ∀ c ∈ cs, c.isDigit) : digitsOf cs = cs :=
  List.filter_eq_self.2 h

/-- The last digits of a number, put behind another number. -/
theorem ofDigitChars_fixedDigits (width n init : Nat) :
    Nat.ofDigitChars 10 (fixedDigits width n) init = init * 10 ^ width + n % 10 ^ width := by
  induction width generalizing n with
  | zero => simp [fixedDigits, Nat.mod_one]
  | succ width ih =>
    have hmod : n % (10 ^ width * 10) = n % 10 + 10 * (n / 10 % 10 ^ width) := by
      rw [Nat.mul_comm, Nat.mod_mul]
    rw [fixedDigits, Nat.ofDigitChars_append, ih,
      Nat.ofDigitChars_cons_digitChar_of_lt_ten (Nat.mod_lt n (by decide)), Nat.ofDigitChars_nil,
      Nat.pow_succ, hmod, ← Nat.mul_assoc, Nat.mul_comm _ 10, Nat.mul_add]
    omega

section Printed

variable (n places : Nat)

theorem digits_ne_point {cs : List Char} (h : ∀ c ∈ cs, c.isDigit) :
    ∀ c ∈ cs, decide (c ≠ '.') = true := by
  intro c hc
  refine decide_eq_true ?_
  rintro rfl
  exact absurd (h _ hc) (by decide)

/-- The two parts of what is printed for a number. -/
theorem parts_magnitudeText :
    wholePart (magnitudeText n places) = Nat.toDigits 10 (n / 10 ^ places) ∧
      fractionPart (magnitudeText n places) = fixedDigits places n := by
  have hdigits := digits_ne_point (Text.digits_toDigits (n / 10 ^ places)).digits
  unfold wholePart fractionPart magnitudeText
  change (Nat.toDigits 10 (n / 10 ^ places) ++ _).takeWhile _ = _ ∧
    ((Nat.toDigits 10 (n / 10 ^ places) ++ _).dropWhile _).tail = _
  rw [List.takeWhile_append_of_pos hdigits, List.dropWhile_append_of_pos hdigits]
  cases places with
  | zero => exact ⟨List.append_nil _, rfl⟩
  | succ places => exact ⟨List.append_nil _, rfl⟩

/-- The digits that are printed for a number make that number. -/
theorem value_magnitudeText :
    Nat.ofDigitChars 10 (digitsOf (magnitudeText n places)) 0 = n := by
  have hsame : digitsOf (magnitudeText n places) =
      Nat.toDigits 10 (n / 10 ^ places) ++ fixedDigits places n := by
    unfold magnitudeText
    change digitsOf (Nat.toDigits 10 (n / 10 ^ places) ++ _) = _
    unfold digitsOf
    rw [List.filter_append]
    congr 1
    · exact digitsOf_of_digits (Text.digits_toDigits _).digits
    · cases places with
      | zero => rfl
      | succ places =>
        exact digitsOf_of_digits fun c hc => isDigit_of_mem_fixedDigits hc
  rw [hsame, Nat.ofDigitChars_append, Nat.ofDigitChars_ten_toDigits, ofDigitChars_fixedDigits,
    Nat.div_add_mod']

/-- A number without further places has zeros there. -/
theorem eq_zero_of_mem_fixedDigits {width n : Nat} (h : n % 10 ^ width = 0) {c : Char}
    (hc : c ∈ fixedDigits width n) : c = '0' := by
  induction width generalizing n with
  | zero => cases hc
  | succ width ih =>
    rw [Nat.pow_succ, Nat.mul_comm, Nat.mod_mul] at h
    rcases List.mem_append.1 hc with hc | hc
    · exact ih (by omega) hc
    · have hlast : n % 10 = 0 := by omega
      rw [hlast] at hc
      exact List.mem_singleton.1 hc

/-- What is printed for a number can be read if the whole part is in the bounds of a decimal. At the
greatest one no further places are left. -/
theorem legible_magnitudeText {n places : Nat} (hfits : n / 10 ^ places < Nat.pow 2 96)
    (hrounds : n / 10 ^ places + 1 = Nat.pow 2 96 → n % 10 ^ places = 0) :
    Legible false 0 (wholePart (magnitudeText n places))
      (fractionPart (magnitudeText n places)) := by
  obtain ⟨hwhole, hfraction⟩ := parts_magnitudeText n places
  have hvalue : Nat.ofDigitChars 10 (digitsOf (Nat.toDigits 10 (n / 10 ^ places))) 0 =
      n / 10 ^ places := by
    rw [digitsOf_of_digits (Text.digits_toDigits _).digits, Nat.ofDigitChars_ten_toDigits]
  rw [hwhole, hfraction]
  refine ⟨?_, Or.inr ?_, ?_, ?_⟩
  · intro c hc
    rcases List.mem_append.1 hc with hc | hc
    · exact Or.inl ((Text.digits_toDigits _).digits c hc)
    · exact Or.inl (isDigit_of_mem_fixedDigits hc)
  · obtain ⟨c, cs, hcs⟩ :=
      List.exists_cons_of_ne_nil (Text.digits_toDigits (n / 10 ^ places)).nonempty
    refine ⟨c, ?_, (Text.digits_toDigits (n / 10 ^ places)).digits c ?_⟩
    · rw [hcs]
      rfl
    · rw [hcs]
      exact List.mem_cons_self
  · rw [hvalue]
    exact hfits
  · rw [hvalue]
    intro hfull c hc
    rw [digitsOf_of_digits fun c hc => isDigit_of_mem_fixedDigits hc] at hc
    rw [eq_zero_of_mem_fixedDigits (hrounds hfull) (List.mem_of_mem_head? hc)]
    decide

end Printed

section Signed

variable (d : Decimal) (n places : Nat)

/-- The minus is all that is printed in front of the digits. -/
theorem unsigned_signText :
    unsigned (d.signText ++ magnitudeText n places) = magnitudeText n places ∧
      decide ((d.signText ++ magnitudeText n places).head? = some '-') = d.negative := by
  obtain ⟨c, cs, hcs⟩ := List.exists_cons_of_ne_nil
    (Text.digits_toDigits (n / 10 ^ places)).nonempty
  have hdigit : c.isDigit := (Text.digits_toDigits (n / 10 ^ places)).digits c
    (hcs ▸ List.mem_cons_self)
  have htext : ∃ more, magnitudeText n places = c :: more := by
    unfold magnitudeText
    change ∃ more, Nat.toDigits 10 (n / 10 ^ places) ++ _ = _
    rw [hcs]
    exact ⟨_, rfl⟩
  obtain ⟨more, hmore⟩ := htext
  unfold signText
  cases d.negative with
  | true => exact ⟨rfl, rfl⟩
  | false =>
    have hminus : c ≠ '-' := by rintro rfl; cases hdigit
    have hplus : c ≠ '+' := by rintro rfl; cases hdigit
    change unsigned (magnitudeText n places) = _ ∧
      decide ((magnitudeText n places).head? = some '-') = false
    rw [hmore]
    refine ⟨?_, by simpa using hminus⟩
    unfold unsigned
    split <;> simp_all

/-- The number that is written by a sign and the digits of a number. -/
theorem written_signText :
    writtenCoeff (d.signText ++ magnitudeText n places) = signed d.negative n ∧
      writtenPlaces (d.signText ++ magnitudeText n places) = places := by
  obtain ⟨hunsigned, hsign⟩ := unsigned_signText d n places
  obtain ⟨hdigits, hfraction⟩ := digitsOf_unsigned (d.signText ++ magnitudeText n places)
  rw [hunsigned] at hdigits hfraction
  constructor
  · unfold writtenCoeff
    rw [hsign, ← hdigits, value_magnitudeText]
  · unfold writtenPlaces
    rw [← hfraction, (parts_magnitudeText _ _).2,
      digitsOf_of_digits fun c hc => isDigit_of_mem_fixedDigits hc, length_fixedDigits]

end Signed

/-- The decimal without the minus of a zero. -/
def withoutNegativeZero (d : Decimal) : Decimal :=
  { d with negative := decide (d.coeff < 0) }

theorem withoutNegativeZero_eq {d : Decimal} (hzero : d.magnitude = 0 → d.negative = false) :
    d.withoutNegativeZero = d := by
  unfold withoutNegativeZero
  rw [decide_coeff_neg hzero]

@[simp] theorem coeff_withoutNegativeZero (d : Decimal) :
    d.withoutNegativeZero.coeff = d.coeff := by
  change signed (decide (d.coeff < 0)) d.magnitude = d.coeff
  rw [← natAbs_coeff d]
  exact signed_natAbs d.coeff

/-- What is printed for a decimal is plain notation for it, but a zero is read without a minus. -/
theorem readPlain_toChars_eq (d : Decimal) : readPlain d.toChars = some d.withoutNegativeZero := by
  obtain ⟨hcoeff, hplaces⟩ := written_signText d d.magnitude d.scale
  rw [← coeff_eq_signed, ← toChars] at hcoeff
  have hplain : PlainNotation d.toChars := by
    unfold PlainNotation
    rw [toChars, (unsigned_signText d _ _).1]
    apply legible_magnitudeText
    · exact Nat.lt_of_le_of_lt (Nat.div_le_self _ _) d.magnitude_lt
    · -- a number with places is too small to be rounded out of the bounds
      intro hfull
      have hless := d.magnitude_lt
      rcases hscale : d.scale with _ | places
      · exact Nat.mod_one _
      · rw [hscale] at hfull
        have hten : 10 ≤ 10 ^ (places + 1) := Nat.le_self_pow (Nat.succ_ne_zero places) 10
        have htenth : d.magnitude / 10 ^ (places + 1) ≤ d.magnitude / 10 :=
          Nat.div_le_div_left hten (by decide)
        have hbig : 10 < Nat.pow 2 96 := by decide
        omega
  rw [readPlain_of_fits hplain (by rw [hcoeff, natAbs_coeff]; exact d.magnitude_lt)
    (by rw [toChars, hplaces]; exact d.scale_le), hcoeff, toChars, hplaces]
  unfold ofParts? ofSigned?
  rw [natAbs_coeff, dif_pos ⟨d.magnitude_lt, d.scale_le⟩]
  rfl

/-- What is printed for a decimal is plain notation for it. A zero has to have no minus. -/
theorem readPlain_toChars {d : Decimal} (hzero : d.magnitude = 0 → d.negative = false) :
    readPlain d.toChars = some d := by
  rw [readPlain_toChars_eq, withoutNegativeZero_eq hzero]

end TransferDesk.Decimal
