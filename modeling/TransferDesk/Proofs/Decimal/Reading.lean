import TransferDesk.Proofs.Decimal.Plain
import TransferDesk.Proofs.Decimal.Sum
/-!
# How near reading comes to what is written

A fraction can have more digits than a decimal has room for, and reading leaves out those behind the
last one that fits. So what is read can differ from what is written (`plainNumber`). It does so only
where it has to: a number that some decimal stands for is read as that number, and any other one is
missed by less than a unit of the last place that is kept.

* `not_representable_of_between`: no decimal stands for a number strictly between two neighbours
  where there is no room for a further place;
* `Approximates` is what is kept of the digits of a number, `approximates_cutAt` says it of the cut
  and `approximates_readMagnitude` of all digits;
* `readFor_readPlain`: so plain notation is `ReadFor` the number that is written.
-/

namespace TransferDesk.Decimal

open TransferDesk.Text (signed)

/-! ## Room for places -/

/-- No decimal stands for a number strictly between two neighbours with `places` places, if there is
no room for one place more. -/
theorem not_representable_of_between {n : ℤ} {places : ℕ} {q : ℚ} (hlow : n < q * 10 ^ places)
    (hhigh : q * 10 ^ places < n + 1)
    (hfull : 28 ≤ places ∨ 2 ^ 96 ≤ |q| * 10 ^ (places + 1)) : ¬ Representable q := by
  rintro ⟨d, rfl⟩
  rcases Nat.lt_or_ge places d.scale with hmore | hless
  · -- with more places the coefficient would pass 96 bits
    rcases hfull with hfull | hfull
    · exact absurd d.scale_le (by omega)
    · have hpow : (10 : ℚ) ^ (places + 1) ≤ 10 ^ d.scale :=
        pow_le_pow_right₀ (by norm_num) hmore
      have hcoeff : |d.value| * 10 ^ d.scale = |(d.coeff : ℚ)| := by
        rw [← value_mul_pow, abs_mul, abs_of_pos (by positivity : (0 : ℚ) < 10 ^ d.scale)]
      have hlarge : (2 ^ 96 : ℚ) ≤ |(d.coeff : ℚ)| := by
        rw [← hcoeff]
        exact le_trans hfull (mul_le_mul_of_nonneg_left hpow (abs_nonneg _))
      have hint : (2 : ℤ) ^ 96 ≤ |d.coeff| := by
        exact_mod_cast hlarge
      exact absurd (abs_coeff_lt d) (not_lt.2 hint)
  · -- with as many places or fewer the number is one of the neighbours
    have hwhole : d.value * 10 ^ places = d.coeffAt places := by
      rw [value_eq_coeffAt hless, div_mul_cancel₀ _ (pow_ten_ne_zero places)]
    rw [hwhole] at hlow hhigh
    have hlow : n < d.coeffAt places := by exact_mod_cast hlow
    have hhigh : d.coeffAt places < n + 1 := by exact_mod_cast hhigh
    omega

/-! ## The cut -/

/-- What is kept of a number that is not negative: its digits up to some place, rounded. It is the
number itself, or no decimal stands for the number and there is no room for a further place. -/
structure Approximates (n places : ℕ) (x : ℚ) : Prop where
  near : |n / 10 ^ places - x| < 1 / 10 ^ places
  exact_or_full : n / 10 ^ places = x ∨
    ¬ Representable x ∧ (places = 28 ∨ 2 ^ 96 ≤ n * 10)

theorem Approximates.refl (n places : ℕ) : Approximates n places (n / 10 ^ places) where
  near := by
    rw [sub_self, abs_zero]
    positivity
  exact_or_full := Or.inl rfl

/-- Digits that are left out behind the last place make less than a unit of it. -/
theorem ofDigitChars_lt {cs : List Char} (h : ∀ c ∈ cs, c.isDigit) :
    Nat.ofDigitChars 10 cs 0 < 10 ^ cs.length := by
  induction cs with
  | nil => decide
  | cons c cs ih =>
    have hrest := ih fun d hd => h d (List.mem_cons_of_mem c hd)
    have hdigit := (Text.toNat_of_isDigit (h c List.mem_cons_self)).2
    have hvalue : c.toNat - '0'.toNat ≤ 9 := by
      show c.toNat - 48 ≤ 9
      omega
    rw [Nat.ofDigitChars_cons, Nat.ofDigitChars_eq_ofDigitChars_zero, List.length_cons, pow_succ]
    nlinarith

theorem digits_digitsOf (cs : List Char) : ∀ c ∈ digitsOf cs, c.isDigit := by
  intro c hc
  exact (List.mem_filter.1 hc).2

/-- The number that is written by the digits read so far and those of further characters, which
stand behind the point. -/
def Reading.followedBy (r : Reading) (cs : List Char) : ℚ :=
  Nat.ofDigitChars 10 (digitsOf cs) r.coeff / 10 ^ (r.places + (digitsOf cs).length)

/-- Further digits add less than a unit of the last place. -/
theorem Reading.followedBy_bounds (r : Reading) (cs : List Char) :
    r.coeff ≤ r.followedBy cs * 10 ^ r.places ∧
      r.followedBy cs * 10 ^ r.places < r.coeff + 1 := by
  have hlt := ofDigitChars_lt (digits_digitsOf cs)
  have hsplit : Nat.ofDigitChars 10 (digitsOf cs) r.coeff =
      10 ^ (digitsOf cs).length * r.coeff + Nat.ofDigitChars 10 (digitsOf cs) 0 :=
    Nat.ofDigitChars_eq_ofDigitChars_zero
  generalize Nat.ofDigitChars 10 (digitsOf cs) 0 = tail at hlt hsplit
  generalize hk : (digitsOf cs).length = k at hlt hsplit
  have hk0 : (0 : ℚ) < 10 ^ k := by positivity
  have hvalue : r.followedBy cs * 10 ^ r.places = r.coeff + tail / 10 ^ k := by
    have h0 := pow_ten_ne_zero r.places
    rw [followedBy, hsplit, hk, pow_add]
    push_cast
    field_simp
  have htail : (tail : ℚ) < 10 ^ k := by exact_mod_cast hlt
  rw [hvalue]
  constructor
  · have : (0 : ℚ) ≤ tail / 10 ^ k := by positivity
    linarith
  · rw [add_lt_add_iff_left, div_lt_one hk0]
    exact htail

theorem Reading.followedBy_digit (r : Reading) {c : Char} (hc : c.isDigit) (cs : List Char) :
    r.followedBy (c :: cs) =
      Reading.followedBy ⟨r.coeff * 10 + (c.toNat - 48), r.places + 1, true, true⟩ cs := by
  unfold followedBy
  rw [ofDigitChars_digitsOf_cons hc, digitsOf_cons hc, List.length_cons, Nat.add_assoc,
    Nat.add_comm 1]

theorem abs_div_pow_sub_lt {n places : ℕ} {x : ℚ} (h : |n - x * 10 ^ places| < 1) :
    |n / 10 ^ places - x| < 1 / 10 ^ places := by
  have hpow : (0 : ℚ) < 10 ^ places := by positivity
  have hscale : n / 10 ^ places - x = (n - x * 10 ^ places) / 10 ^ places := by
    field_simp
  rw [hscale, abs_div, abs_of_pos hpow]
  exact div_lt_div_of_pos_right h hpow

/-- The digits from `d` on make a fraction of the last place, if they are not all zeros. Where there
is no room for `d`, no decimal has that fraction. -/
theorem not_representable_of_cut {r : Reading} {d : ℕ} {x : ℚ} (hplaces : r.places ≤ 28)
    (hroom : ¬ (r.places < 28 ∧ r.coeff * 10 + d < Nat.pow 2 96))
    (hlow : r.coeff * 10 + d ≤ x * 10 ^ r.places * 10) (hmore : r.coeff < x * 10 ^ r.places)
    (hless : x * 10 ^ r.places < r.coeff + 1) : ¬ Representable x := by
  have hbig : Nat.pow 2 96 = 79228162514264337593543950336 := by decide
  rw [hbig] at hroom
  refine not_representable_of_between (n := r.coeff) (by exact_mod_cast hmore)
    (by exact_mod_cast hless) ?_
  rcases Nat.lt_or_ge r.places 28 with hplace | hge
  · right
    have hfull : 79228162514264337593543950336 ≤ r.coeff * 10 + d := by omega
    have hfull : (79228162514264337593543950336 : ℚ) ≤ r.coeff * 10 + d := by
      exact_mod_cast hfull
    have hself := mul_le_mul_of_nonneg_right (le_abs_self x)
      (by positivity : (0 : ℚ) ≤ 10 ^ r.places)
    have hnext : |x| * 10 ^ (r.places + 1) = |x| * 10 ^ r.places * 10 := by
      rw [pow_succ, ← mul_assoc]
    rw [hnext]
    linarith
  · exact Or.inl hge

/-- A number that is rounded up to `2 ^ 96` gives up its last place too. -/
theorem abs_sub_lt_of_give_up {fewer : ℕ} {x : ℚ}
    (hlow : 79228162514264337593543950335 ≤ x * 10 ^ (fewer + 1))
    (hhigh : x * 10 ^ (fewer + 1) < 79228162514264337593543950336) :
    |(roundHalfUp (79228162514264337593543950335 + 1) 10 : ℕ) / 10 ^ fewer - x| <
      1 / 10 ^ fewer := by
  have hround : roundHalfUp (79228162514264337593543950335 + 1) 10 =
      7922816251426433759354395034 := by
    decide
  rw [pow_succ, ← mul_assoc] at hlow hhigh
  rw [hround]
  refine abs_div_pow_sub_lt (abs_lt.2 ?_)
  push_cast
  constructor
  · linarith
  · linarith

/-- To cut a number before the digit `d` and to round by it keeps what there is room for. -/
theorem approximates_cutAt {r : Reading} {d n places : ℕ} {x : ℚ} (hcoeff : r.coeff < Nat.pow 2 96)
    (hplaces : r.places ≤ 28) (hd : d ≤ 9)
    (hlow : r.coeff * 10 + d ≤ x * 10 ^ (r.places + 1))
    (hhigh : x * 10 ^ (r.places + 1) < r.coeff * 10 + d + 1)
    (hroom : ¬ (r.places < 28 ∧ r.coeff * 10 + d < Nat.pow 2 96))
    (h : r.cutAt d = some (n, places)) : Approximates n places x := by
  have hbig : Nat.pow 2 96 = 79228162514264337593543950336 := by decide
  have hd' : (d : ℚ) ≤ 9 := by exact_mod_cast hd
  have hd0 : (0 : ℚ) ≤ d := by positivity
  rw [pow_succ, ← mul_assoc] at hlow hhigh
  have hfraction : (r.coeff : ℚ) < x * 10 ^ r.places → ¬ Representable x := by
    intro hmore
    exact not_representable_of_cut hplaces hroom hlow hmore (by linarith)
  rw [hbig] at hcoeff hroom
  unfold Reading.cutAt at h
  rw [hbig] at h
  split at h
  · -- rounded down
    rename_i hdown
    obtain ⟨rfl, rfl⟩ := Prod.mk.inj (Option.some.inj h)
    have hdown : (d : ℚ) ≤ 4 := by exact_mod_cast Nat.le_of_lt_succ hdown
    refine ⟨abs_div_pow_sub_lt (abs_lt.2 ⟨by linarith, by linarith⟩), ?_⟩
    by_cases hexact : x * 10 ^ r.places = r.coeff
    · left
      rw [← hexact, mul_div_cancel_right₀ _ (pow_ten_ne_zero r.places)]
    · right
      refine ⟨hfraction (lt_of_le_of_ne (by linarith) (Ne.symm hexact)), ?_⟩
      omega
  · rename_i hup
    have hup : (5 : ℚ) ≤ d := by exact_mod_cast Nat.not_lt.1 hup
    have hnot := hfraction (by linarith)
    split at h
    · -- rounded up
      obtain ⟨rfl, rfl⟩ := Prod.mk.inj (Option.some.inj h)
      refine ⟨abs_div_pow_sub_lt (abs_lt.2 ?_), Or.inr ⟨hnot, ?_⟩⟩
      · push_cast
        constructor
        · linarith
        · linarith
      · omega
    · split at h
      · cases h
      · rename_i hlast hpos
        obtain ⟨rfl, rfl⟩ := Prod.mk.inj (Option.some.inj h)
        obtain ⟨fewer, hfewer⟩ := Nat.exists_eq_succ_of_ne_zero hpos
        have hall : r.coeff = 79228162514264337593543950335 := by omega
        have hall' : (r.coeff : ℚ) = 79228162514264337593543950335 := by exact_mod_cast hall
        have hlow : 79228162514264337593543950335 ≤ x * 10 ^ r.places := by linarith
        have hhigh : x * 10 ^ r.places < 79228162514264337593543950336 := by linarith
        rw [hfewer] at hlow hhigh
        rw [hfewer, Nat.succ_sub_one, hall]
        exact ⟨abs_sub_lt_of_give_up hlow hhigh, Or.inr ⟨hnot, Or.inr (by decide)⟩⟩

/-! ## All digits -/

/-- Where digits count for nothing because all places are taken, what has been read is what is
kept. -/
theorem approximates_of_full {r : Reading} (hplaces : r.places = 28) (cs : List Char) :
    Approximates r.coeff r.places (r.followedBy cs) := by
  obtain ⟨hlow, hhigh⟩ := r.followedBy_bounds cs
  refine ⟨abs_div_pow_sub_lt (abs_lt.2 ⟨by linarith, by linarith⟩), ?_⟩
  by_cases hexact : r.followedBy cs * 10 ^ r.places = r.coeff
  · left
    rw [← hexact, mul_div_cancel_right₀ _ (pow_ten_ne_zero r.places)]
  · right
    have hmore : (r.coeff : ℚ) < r.followedBy cs * 10 ^ r.places :=
      lt_of_le_of_ne hlow (Ne.symm hexact)
    exact ⟨not_representable_of_between (n := r.coeff) (by exact_mod_cast hmore)
      (by exact_mod_cast hhigh) (Or.inl hplaces.ge), Or.inl hplaces⟩

theorem Reading.followedBy_underscore (r : Reading) (cs : List Char) :
    r.followedBy ('_' :: cs) = r.followedBy cs :=
  rfl

/-- The digits behind the point. -/
theorem approximates_readMagnitude_fraction {r : Reading} (hpoint : r.pointSeen = true)
    (hcoeff : r.coeff < Nat.pow 2 96) (hplaces : r.places ≤ 28) {cs : List Char} {n places : ℕ}
    (h : readMagnitude r cs = some (n, places)) : Approximates n places (r.followedBy cs) := by
  induction cs generalizing r with
  | nil =>
    rw [readMagnitude] at h
    split at h
    · obtain ⟨rfl, rfl⟩ := Prod.mk.inj (Option.some.inj h)
      exact Approximates.refl _ _
    · cases h
  | cons c cs ih =>
    by_cases hdigit : c.isDigit = true
    · rw [readMagnitude_fraction_digit r cs hdigit hpoint] at h
      rw [r.followedBy_digit hdigit]
      split at h
      · rename_i hroom
        exact ih rfl hroom.2 hroom.1 h
      · rename_i hroom
        split at h
        · obtain ⟨hlow, hhigh⟩ := Reading.followedBy_bounds
            ⟨r.coeff * 10 + (c.toNat - 48), r.places + 1, true, true⟩ cs
          push_cast at hlow hhigh
          have hdigit := (Text.toNat_of_isDigit hdigit).2
          have hnine : c.toNat - 48 ≤ 9 := by omega
          exact approximates_cutAt hcoeff hplaces hnine hlow hhigh hroom h
        · cases h
    · by_cases hunderscore : c = '_' ∧ r.digitSeen = true
      · obtain ⟨rfl, hseen⟩ := hunderscore
        rw [readMagnitude_underscore r cs hseen] at h
        rw [r.followedBy_underscore]
        split at h
        · rename_i hends
          split at h
          · obtain ⟨rfl, rfl⟩ := Prod.mk.inj (Option.some.inj h)
            exact approximates_of_full (Reading.places_of_endsAtUnderscore hends) cs
          · cases h
        · exact ih hpoint hcoeff hplaces h
      · rw [readMagnitude_eq_none r cs (by simpa using hdigit) (by simpa using hunderscore)
          (fun _ => hpoint)] at h
        cases h

/-- The digits in front of the point and behind it. -/
theorem approximates_readMagnitude {coeff : ℕ} {digitSeen : Bool} (hcoeff : coeff < Nat.pow 2 96)
    {cs : List Char} {n places : ℕ}
    (h : readMagnitude ⟨coeff, 0, false, digitSeen⟩ cs = some (n, places)) :
    Approximates n places
      (Nat.ofDigitChars 10 (digitsOf cs) coeff / 10 ^ (digitsOf (fractionPart cs)).length) := by
  induction cs generalizing coeff digitSeen with
  | nil =>
    rw [readMagnitude] at h
    split at h
    · obtain ⟨rfl, rfl⟩ := Prod.mk.inj (Option.some.inj h)
      exact Approximates.refl _ _
    · cases h
  | cons c cs ih =>
    by_cases hdigit : c.isDigit = true
    · have hpoint : c ≠ '.' := by
        rintro rfl
        cases hdigit
      rw [readMagnitude_whole_digit _ cs hdigit rfl] at h
      rw [ofDigitChars_digitsOf_cons hdigit, fractionPart_cons hpoint]
      split at h
      · exact ih ‹_› h
      · cases h
    · have hsame : digitsOf (c :: cs) = digitsOf cs := List.filter_cons_of_neg hdigit
      rw [hsame]
      by_cases hpoint : c = '.'
      · subst hpoint
        rw [readMagnitude_point _ cs rfl] at h
        have hread := approximates_readMagnitude_fraction rfl hcoeff (Nat.zero_le 28) h
        unfold Reading.followedBy at hread
        rw [Nat.zero_add] at hread
        exact hread
      · rw [fractionPart_cons hpoint]
        by_cases hunderscore : c = '_' ∧ digitSeen = true
        · obtain ⟨rfl, rfl⟩ := hunderscore
          rw [readMagnitude_underscore _ cs rfl] at h
          exact ih hcoeff h
        · rw [readMagnitude_eq_none _ cs (by simpa using hdigit) (by simpa using hunderscore)
            (fun hc => absurd hc hpoint)] at h
          cases h

/-! ## Plain notation -/

/-- The number that is written in plain notation. -/
def plainNumber (t : List Char) : ℚ :=
  writtenCoeff t / 10 ^ writtenPlaces t

/-- How a decimal that is read stands to the number that is written. It is that number, or no
decimal is and there is no room for a further place. -/
structure ReadFor (d : Decimal) (q : ℚ) : Prop where
  near : |d.value - q| < 1 / 10 ^ d.scale
  exact_or_full : d.value = q ∨ ¬ Representable q ∧ (d.scale = 28 ∨ 2 ^ 96 ≤ d.magnitude * 10)

/-- What is read is what is written if and only if some decimal stands for that. -/
theorem ReadFor.exact_iff {d : Decimal} {q : ℚ} (h : d.ReadFor q) :
    d.value = q ↔ Representable q := by
  constructor
  · intro hexact
    exact ⟨d, hexact⟩
  · intro hrepresentable
    rcases h.exact_or_full with hexact | ⟨hnot, -⟩
    · exact hexact
    · exact absurd hrepresentable hnot

theorem representable_neg {q : ℚ} (h : Representable q) : Representable (-q) := by
  obtain ⟨d, rfl⟩ := h
  exact ⟨d.negate, value_negate d⟩

/-- The sign has no part in what is kept. -/
theorem Approximates.readFor {n places : ℕ} {x : ℚ} (h : Approximates n places x) (negative : Bool)
    {d : Decimal} (hd : ofParts? (signed negative n) places = some d) :
    d.ReadFor (if negative then -x else x) := by
  obtain ⟨hcoeff, hscale⟩ := ofParts?_eq_some hd
  have hmagnitude : d.magnitude = n := by
    rw [← natAbs_coeff, hcoeff, natAbs_signed]
  have hvalue : d.value = if negative then -((n : ℚ) / 10 ^ places) else n / 10 ^ places := by
    rw [value, hcoeff, hscale]
    unfold signed
    cases negative with
    | false => simp
    | true =>
      simp
      ring
  constructor
  · rw [hvalue, hscale]
    cases negative with
    | false => exact h.near
    | true =>
      have hneg : -((n : ℚ) / 10 ^ places) - -x = -(n / 10 ^ places - x) := by ring
      simp only [if_true]
      rw [hneg, abs_neg]
      exact h.near
  · rw [hvalue, hscale, hmagnitude]
    rcases h.exact_or_full with hexact | ⟨hnot, hfull⟩
    · left
      rw [hexact]
    · right
      refine ⟨?_, hfull⟩
      cases negative with
      | false => exact hnot
      | true =>
        intro hneg
        have hback := representable_neg hneg
        simp only [if_true, neg_neg] at hback
        exact hnot hback

/-- Plain notation is read for the number that is written. -/
theorem readFor_readPlain {t : List Char} {d : Decimal} (h : readPlain t = some d) :
    d.ReadFor (plainNumber t) := by
  obtain ⟨hdigits, hfraction⟩ := digitsOf_unsigned t
  rw [readPlain_eq] at h
  obtain ⟨⟨n, places⟩, hread, hd⟩ := Option.bind_eq_some_iff.1 h
  have hkept := (approximates_readMagnitude (by decide) hread).readFor _ hd
  have hnumber : plainNumber t =
      if decide (t.head? = some '-') = true then
        -((Nat.ofDigitChars 10 (digitsOf t) 0 : ℚ) / 10 ^ (digitsOf (fractionPart t)).length)
      else Nat.ofDigitChars 10 (digitsOf t) 0 / 10 ^ (digitsOf (fractionPart t)).length := by
    unfold plainNumber writtenCoeff writtenPlaces signed
    split
    · push_cast
      ring
    · push_cast
      rfl
  rw [hdigits, hfraction] at hkept
  rw [hnumber]
  exact hkept

end TransferDesk.Decimal
