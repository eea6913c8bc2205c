import TransferDesk.Text.Integer
/-!
# Numerals

A `Numeral` is an optional sign and one or more decimal digits, in any number: zeros may stand in
front. Reading an integer accepts the numerals of the integers in the range and nothing else
(`readInteger_eq_ok_iff`), and what is printed for an integer is one of its numerals
(`numeral_integerChars`).
-/

namespace TransferDesk.Text

/-- One or more decimal digits, and the number that they stand for. -/
structure Digits (t : List Char) (n : Nat) : Prop where
  nonempty : t ≠ []
  digits : ∀ c ∈ t, c.isDigit
  value : n = Nat.ofDigitChars 10 t 0

/-- An optional sign and decimal digits, and the integer that they stand for. -/
inductive Numeral : List Char → Int → Prop
  | bare {t : List Char} {n : Nat} (h : Digits t n) : Numeral t n
  | plus {t : List Char} {n : Nat} (h : Digits t n) : Numeral ('+' :: t) n
  | minus {t : List Char} {n : Nat} (h : Digits t n) : Numeral ('-' :: t) (-n)

/-! ## Reading -/

/-- The code points of the decimal digits. -/
theorem toNat_of_isDigit {c : Char} (h : c.isDigit) : 48 ≤ c.toNat ∧ c.toNat ≤ 57 :=
  Char.isDigit_iff_toNat.1 h

/-- The digits in base ten are the decimal digits. -/
theorem digitValue?_ten (c : Char) :
    digitValue? 10 c = if c.isDigit then some (c.toNat - 48) else none := by
  have hle (a b : Char) : a ≤ b ↔ a.toNat ≤ b.toNat := UInt32.le_iff_toNat_le
  unfold digitValue?
  simp only [hle]
  by_cases hdigit : c.isDigit = true
  · have hbounds := toNat_of_isDigit hdigit
    have hless : c.toNat - 48 < 10 := by omega
    rw [if_pos (Char.isDigit_iff_toNat.1 hdigit), if_pos hdigit, if_pos hless]
  · -- the value of a letter is ten at least
    have hletters : ¬ (if 'a'.toNat ≤ c.toNat ∧ c.toNat ≤ 'z'.toNat then c.toNat - 87
        else if 'A'.toNat ≤ c.toNat ∧ c.toNat ≤ 'Z'.toNat then c.toNat - 55 else 10) < 10 := by
      change ¬ (if 97 ≤ c.toNat ∧ c.toNat ≤ 122 then c.toNat - 87
        else if 65 ≤ c.toNat ∧ c.toNat ≤ 90 then c.toNat - 55 else 10) < 10
      split
      · omega
      split <;> omega
    rw [if_neg (fun h => hdigit (Char.isDigit_iff_toNat.2 h)), if_neg hdigit, if_neg hletters]

/-- The number with a minus, if there is one. -/
def signed (negative : Bool) (n : Nat) : Int :=
  if negative then -(n : Int) else n

theorem signed_next (negative : Bool) (n d : Nat) :
    signed negative n * (10 : Nat) + (if negative then -(d : Int) else d) =
      signed negative (10 * n + d) := by
  unfold signed
  cases negative <;> simp <;> omega

/-- Further digits lead away from zero. -/
theorem le_ofDigitChars (t : List Char) (n : Nat) : n ≤ Nat.ofDigitChars 10 t n := by
  have hpos : 1 ≤ 10 ^ t.length := Nat.one_le_pow _ _ (by decide)
  calc
    n ≤ 10 ^ t.length * n := Nat.le_mul_of_pos_left n hpos
    _ ≤ 10 ^ t.length * n + Nat.ofDigitChars 10 t 0 := Nat.le_add_right _ _
    _ = Nat.ofDigitChars 10 t n := Nat.ofDigitChars_eq_ofDigitChars_zero.symm

/-- Digits are read if what they stand for is in the range. The numbers on the way are nearer to
zero. -/
theorem readDigits_eq_ok_iff {lo hi z : Int} (hlo : lo ≤ 0) (hhi : 0 ≤ hi) (negative : Bool)
    {n : Nat} (hn : lo ≤ signed negative n ∧ signed negative n ≤ hi) (t : List Char) :
    readDigits 10 lo hi negative (signed negative n) t = .ok z ↔
      (∀ c ∈ t, c.isDigit) ∧ z = signed negative (Nat.ofDigitChars 10 t n) ∧ lo ≤ z ∧ z ≤ hi := by
  induction t generalizing n with
  | nil =>
    rw [readDigits, Nat.ofDigitChars_nil]
    constructor
    · intro h
      obtain rfl := Except.ok.inj h
      exact ⟨by simp, rfl, hn⟩
    · rintro ⟨-, rfl, -⟩
      rfl
  | cons c t ih =>
    rw [readDigits, digitValue?_ten]
    by_cases hdigit : c.isDigit = true
    · rw [if_pos hdigit]
      dsimp only
      rw [signed_next, Nat.ofDigitChars_cons]
      change _ ↔ _ ∧ z = signed negative (Nat.ofDigitChars 10 t (10 * n + (c.toNat - 48))) ∧ _
      have hfar := le_ofDigitChars t (10 * n + (c.toNat - 48))
      generalize 10 * n + (c.toNat - 48) = next at *
      -- a number on the way that is out of the range stays out of it
      split
      · refine iff_of_false (by simp) ?_
        rintro ⟨-, rfl, -, hz⟩
        unfold signed at *
        cases negative <;> simp at * <;> omega
      split
      · refine iff_of_false (by simp) ?_
        rintro ⟨-, rfl, hz, -⟩
        unfold signed at *
        cases negative <;> simp at * <;> omega
      · rw [ih ⟨by omega, by omega⟩]
        simp [hdigit]
    · rw [if_neg hdigit]
      simp [hdigit]

/-- The digits behind a sign. -/
theorem readDigits_zero_iff {lo hi z : Int} (hlo : lo ≤ 0) (hhi : 0 ≤ hi) (negative : Bool)
    {t : List Char} (hne : t ≠ []) :
    readDigits 10 lo hi negative 0 t = .ok z ↔
      (∃ n, Digits t n ∧ z = signed negative n) ∧ lo ≤ z ∧ z ≤ hi := by
  have hzero : signed negative 0 = 0 := by
    cases negative <;> rfl
  have h := readDigits_eq_ok_iff (z := z) hlo hhi negative (n := 0)
    (by rw [hzero]; exact ⟨hlo, hhi⟩) t
  rw [hzero] at h
  rw [h]
  constructor
  · rintro ⟨hdigits, hz, hrange⟩
    exact ⟨⟨_, ⟨hne, hdigits, rfl⟩, hz⟩, hrange⟩
  · rintro ⟨⟨n, ⟨-, hdigits, rfl⟩, hz⟩, hrange⟩
    exact ⟨hdigits, hz, hrange⟩

theorem Digits.head_ne {t : List Char} {n : Nat} {sign : Char} (h : Digits (sign :: t) n)
    (hsign : sign.isDigit = false) : False := by
  have := h.digits sign List.mem_cons_self
  rw [hsign] at this
  exact Bool.false_ne_true this

theorem numeral_plus_iff {t : List Char} {z : Int} :
    Numeral ('+' :: t) z ↔ ∃ n, Digits t n ∧ z = signed false n := by
  constructor
  · rintro (h | h | h)
    · exact absurd (h.head_ne rfl) id
    · exact ⟨_, h, rfl⟩
  · rintro ⟨n, h, rfl⟩
    exact .plus h

theorem numeral_minus_iff {t : List Char} {z : Int} :
    Numeral ('-' :: t) z ↔ ∃ n, Digits t n ∧ z = signed true n := by
  constructor
  · rintro (h | h | h)
    · exact absurd (h.head_ne rfl) id
    · exact ⟨_, h, rfl⟩
  · rintro ⟨n, h, rfl⟩
    exact .minus h

theorem numeral_bare_iff {t : List Char} {z : Int} (hplus : ∀ u, t ≠ '+' :: u)
    (hminus : ∀ u, t ≠ '-' :: u) : Numeral t z ↔ ∃ n, Digits t n ∧ z = signed false n := by
  constructor
  · rintro (h | h | h)
    · exact ⟨_, h, rfl⟩
    · exact absurd rfl (hplus _)
    · exact absurd rfl (hminus _)
  · rintro ⟨n, h, rfl⟩
    exact .bare h

theorem not_digits_nil {n : Nat} : ¬ Digits [] n :=
  fun h => h.nonempty rfl

/-- A range with negative members: the numerals of its integers are read. -/
theorem readInteger_eq_ok_iff {lo hi z : Int} (hlo : lo < 0) (hhi : 0 ≤ hi) (t : List Char) :
    readInteger 10 lo hi t = .ok z ↔ Numeral t z ∧ lo ≤ z ∧ z ≤ hi := by
  have hdigits (negative : Bool) (t : List Char) (hne : t ≠ []) :=
    readDigits_zero_iff (z := z) (Int.le_of_lt hlo) hhi negative hne
  unfold readInteger
  split
  · rw [numeral_bare_iff (by simp) (by simp)]
    simp [not_digits_nil]
  · rw [numeral_plus_iff]
    simp [not_digits_nil]
  · rw [numeral_minus_iff]
    simp [not_digits_nil]
  · rw [numeral_plus_iff]
    exact hdigits false _ ‹_›
  · rw [numeral_minus_iff, if_pos hlo]
    exact hdigits true _ ‹_›
  · rename_i hplus hminus
    rw [numeral_bare_iff hplus hminus]
    exact hdigits false _ ‹_›

/-- A range without negative members: the numerals of its integers are read, unless they have a
minus. -/
theorem readInteger_natural_eq_ok_iff {hi z : Int} (hhi : 0 ≤ hi) (t : List Char) :
    readInteger 10 0 hi t = .ok z ↔ (Numeral t z ∧ t.head? ≠ some '-') ∧ 0 ≤ z ∧ z ≤ hi := by
  have hdigits (t : List Char) (hne : t ≠ []) :=
    readDigits_zero_iff (z := z) (Int.le_refl 0) hhi false hne
  unfold readInteger
  split
  · rw [numeral_bare_iff (by simp) (by simp)]
    simp [not_digits_nil]
  · rw [numeral_plus_iff]
    simp [not_digits_nil]
  · simp
  · rw [numeral_plus_iff, hdigits _ ‹_›]
    simp
  · rw [if_neg (Int.lt_irrefl 0)]
    simp
  · rename_i hplus hminus
    have hhead : t.head? ≠ some '-' := by
      intro hhead
      obtain ⟨u, hu⟩ := List.head?_eq_some_iff.1 hhead
      exact hminus u hu
    rw [numeral_bare_iff hplus hminus, hdigits _ ‹_›, and_iff_left hhead]

/-- The numerals of the 32-bit integers are read. -/
theorem readInt32_eq_ok_iff (t : List Char) (id : Int32) :
    readInt32 10 t = .ok id ↔ Numeral t id.toInt := by
  unfold readInt32
  constructor
  · intro h
    rcases hread : readInteger 10 (-2147483648) 2147483647 t with fault | z
    · rw [hread] at h
      cases h
    · rw [hread] at h
      obtain rfl := Except.ok.inj h
      obtain ⟨hnumeral, hlo, hhi⟩ := (readInteger_eq_ok_iff (by decide) (by decide) t).1 hread
      rw [Int32.toInt_ofInt_of_le hlo (Int.lt_add_one_of_le hhi)]
      exact hnumeral
  · intro h
    have hread : readInteger 10 (-2147483648) 2147483647 t = .ok id.toInt :=
      (readInteger_eq_ok_iff (by decide) (by decide) t).2
        ⟨h, id.le_toInt, Int.le_of_lt_add_one id.toInt_lt⟩
    rw [hread]
    exact congrArg Except.ok (Int32.ofInt_toInt id)

/-! ## Printing -/

theorem digits_toDigits (n : Nat) : Digits (Nat.toDigits 10 n) n where
  nonempty := Nat.toDigits_ne_nil
  digits _ h := Nat.isDigit_of_mem_toDigits (by decide) (by decide) h
  value := Nat.ofDigitChars_ten_toDigits.symm

/-- What is printed for an integer is a numeral for it. -/
theorem numeral_integerChars (z : Int) : Numeral (integerChars z) z := by
  unfold integerChars
  split
  · have hz : z = -(z.natAbs : Int) := by omega
    have hminus := Numeral.minus (digits_toDigits z.natAbs)
    rwa [← hz] at hminus
  · have hz : z = (z.natAbs : Int) := by omega
    have hbare := Numeral.bare (digits_toDigits z.natAbs)
    rwa [← hz] at hbare

/-- A numeral is made of digits and signs. -/
theorem Numeral.mem {t : List Char} {z : Int} (h : Numeral t z) {c : Char} (hc : c ∈ t) :
    c = '+' ∨ c = '-' ∨ c.isDigit := by
  cases h with
  | bare h => exact Or.inr (Or.inr (h.digits c hc))
  | plus h =>
    rcases List.mem_cons.1 hc with rfl | hc
    · exact Or.inl rfl
    · exact Or.inr (Or.inr (h.digits c hc))
  | minus h =>
    rcases List.mem_cons.1 hc with rfl | hc
    · exact Or.inr (Or.inl rfl)
    · exact Or.inr (Or.inr (h.digits c hc))

end TransferDesk.Text
