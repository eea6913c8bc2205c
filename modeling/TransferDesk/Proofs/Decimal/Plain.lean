import TransferDesk.Decimal.Reader
import TransferDesk.Proofs.Text.Numerals
/-!
# Plain notation

`PlainNotation` says which texts are read as decimals in plain notation, without reading them: an
optional sign and digits with at most one point, underscores anywhere after the first digit. What
stands in front of the point has to fit into 96 bits, also after rounding (`isSome_readPlain_iff`).

If all digits fit, each of them counts: the text is read as the number that is written
(`readPlain_of_fits`).
-/

namespace TransferDesk.Decimal

open TransferDesk.Text (digitValue?_ten signed)

/-- The text without a sign in front. -/
def unsigned : List Char → List Char
  | '-' :: cs => cs
  | '+' :: cs => cs
  | cs => cs

/-- The characters in front of the point. -/
def wholePart (cs : List Char) : List Char :=
  cs.takeWhile (· ≠ '.')

/-- The characters behind the point. -/
def fractionPart (cs : List Char) : List Char :=
  (cs.dropWhile (· ≠ '.')).tail

/-- The digits among characters. -/
def digitsOf (cs : List Char) : List Char :=
  cs.filter Char.isDigit

/-- Characters that can be read on from a coefficient, in front of the point and behind it. -/
structure Legible (digitSeen : Bool) (coeff : Nat) (whole fraction : List Char) : Prop where
  chars : ∀ c ∈ whole ++ fraction, c.isDigit ∨ c = '_'
  /-- No underscore comes first. -/
  digit_first : digitSeen = true ∨ ∃ c, (whole ++ fraction).head? = some c ∧ c.isDigit
  fits : Nat.ofDigitChars 10 (digitsOf whole) coeff < Nat.pow 2 96
  /-- The greatest coefficient cannot be rounded up if there is no place to give up. -/
  rounds : Nat.ofDigitChars 10 (digitsOf whole) coeff + 1 = Nat.pow 2 96 →
    ∀ c, (digitsOf fraction).head? = some c → c.toNat - 48 < 5

/-- An optional sign and digits with at most one point and with underscores. -/
def PlainNotation (t : List Char) : Prop :=
  Legible false 0 (wholePart (unsigned t)) (fractionPart (unsigned t))

theorem onlyDigits_iff (cs : List Char) : onlyDigits cs ↔ ∀ c ∈ cs, c.isDigit ∨ c = '_' := by
  unfold onlyDigits
  rw [List.all_eq_true]
  refine forall₂_congr fun c _ => ?_
  rw [decide_eq_true_iff, digitValue?_ten, or_comm]
  split <;> simp_all

theorem digitsOf_cons {c : Char} (hc : c.isDigit) (cs : List Char) :
    digitsOf (c :: cs) = c :: digitsOf cs :=
  List.filter_cons_of_pos hc

/-- One more digit of a number. -/
theorem ofDigitChars_digitsOf_cons {c : Char} (hc : c.isDigit) (cs : List Char) (n : Nat) :
    Nat.ofDigitChars 10 (digitsOf (c :: cs)) n =
      Nat.ofDigitChars 10 (digitsOf cs) (n * 10 + (c.toNat - 48)) := by
  rw [digitsOf_cons hc, Nat.ofDigitChars_cons, Nat.mul_comm 10 n]
  rfl

/-- What comes first can only be no digit if a digit has been seen. -/
theorem seen_of_not_digit {digitSeen : Bool} {c : Char} {cs : List Char} (hc : ¬ c.isDigit)
    (h : digitSeen = true ∨ ∃ d, (c :: cs).head? = some d ∧ d.isDigit) : digitSeen = true := by
  rcases h with hseen | ⟨d, hd, hdigit⟩
  · exact hseen
  · obtain rfl : c = d := Option.some.inj hd
    exact absurd hdigit hc

theorem Reading.places_of_endsAtUnderscore {r : Reading} (h : r.endsAtUnderscore = true) :
    r.places = 28 := by
  unfold endsAtUnderscore at h
  exact (of_decide_eq_true h).1

/-! ## One character at a time -/

section Steps

variable (r : Reading) (cs : List Char)

theorem readMagnitude_underscore (h : r.digitSeen = true) :
    readMagnitude r ('_' :: cs) =
      if r.endsAtUnderscore then if onlyDigits cs then some (r.coeff, r.places) else none
      else readMagnitude r cs := by
  rw [readMagnitude, if_pos rfl, if_neg (not_not_intro h)]

theorem readMagnitude_point (h : r.pointSeen = false) :
    readMagnitude r ('.' :: cs) = readMagnitude { r with pointSeen := true } cs := by
  rw [readMagnitude, if_neg (by decide), if_pos rfl, h]
  rfl

theorem readMagnitude_whole_digit {c : Char} (hc : c.isDigit) (h : r.pointSeen = false) :
    readMagnitude r (c :: cs) =
      if r.coeff * 10 + (c.toNat - 48) < Nat.pow 2 96 then
        readMagnitude ⟨r.coeff * 10 + (c.toNat - 48), 0, false, true⟩ cs
      else none := by
  have hunderscore : c ≠ '_' := by rintro rfl; cases hc
  have hpoint : c ≠ '.' := by rintro rfl; cases hc
  rw [readMagnitude, if_neg hunderscore, if_neg hpoint, digitValue?_ten, if_pos hc, h]
  rfl

theorem readMagnitude_fraction_digit {c : Char} (hc : c.isDigit) (h : r.pointSeen = true) :
    readMagnitude r (c :: cs) =
      if r.places < 28 ∧ r.coeff * 10 + (c.toNat - 48) < Nat.pow 2 96 then
        readMagnitude ⟨r.coeff * 10 + (c.toNat - 48), r.places + 1, true, true⟩ cs
      else if onlyDigits cs then r.cutAt (c.toNat - 48)
      else none := by
  have hunderscore : c ≠ '_' := by rintro rfl; cases hc
  have hpoint : c ≠ '.' := by rintro rfl; cases hc
  rw [readMagnitude, if_neg hunderscore, if_neg hpoint, digitValue?_ten, if_pos hc, h]
  rfl

/-- A character is passed over only if it is a digit, an underscore behind a digit or the first
point. -/
theorem readMagnitude_eq_none {c : Char} (hdigit : c.isDigit = false)
    (hunderscore : c = '_' → r.digitSeen = false) (hpoint : c = '.' → r.pointSeen = true) :
    readMagnitude r (c :: cs) = none := by
  rw [readMagnitude, digitValue?_ten, hdigit]
  split
  · rw [hunderscore ‹_›]
    rfl
  split
  · rw [if_pos (hpoint ‹_›)]
  · rfl

end Steps

/-! ## What can be read -/

/-- A digit is left out and the coefficient is rounded, if there is room for that. -/
theorem isSome_cutAt_iff {r : Reading} (hcoeff : r.coeff < Nat.pow 2 96) (d : Nat) :
    (r.cutAt d).isSome ↔ (r.places = 0 → r.coeff + 1 = Nat.pow 2 96 → d < 5) := by
  unfold Reading.cutAt
  split
  · simp_all
  split
  · rename_i hroom
    simp only [Option.isSome_some, true_iff]
    intro _ hfull
    exact absurd hroom (by omega)
  split
  · rename_i hup hroom hplaces
    have : r.coeff + 1 = Nat.pow 2 96 := by omega
    simp [hplaces, this, hup]
  · simp_all

/-- Behind the point there is always a way to round, unless no place can be given up. -/
theorem isSome_readMagnitude_fraction {r : Reading} (hpoint : r.pointSeen = true)
    (hcoeff : r.coeff < Nat.pow 2 96) (cs : List Char) :
    (readMagnitude r cs).isSome ↔
      (∀ c ∈ cs, c.isDigit ∨ c = '_') ∧
      (r.digitSeen = true ∨ ∃ c, cs.head? = some c ∧ c.isDigit) ∧
      (r.places = 0 → r.coeff + 1 = Nat.pow 2 96 →
        ∀ c, (digitsOf cs).head? = some c → c.toNat - 48 < 5) := by
  induction cs generalizing r with
  | nil =>
    rw [readMagnitude]
    split <;> simp_all [digitsOf]
  | cons c cs ih =>
    have hmem : (∀ d ∈ c :: cs, d.isDigit ∨ d = '_') ↔
        (c.isDigit ∨ c = '_') ∧ ∀ d ∈ cs, d.isDigit ∨ d = '_' := List.forall_mem_cons
    rw [hmem, List.head?_cons]
    by_cases hdigit : c.isDigit = true
    · rw [readMagnitude_fraction_digit r cs hdigit hpoint, digitsOf, List.filter_cons_of_pos hdigit,
        List.head?_cons]
      split
      · -- the digit has room, and then there is a place to give up
        rename_i hroom
        have hbig : 10 < Nat.pow 2 96 := by decide
        have hfull : r.coeff + 1 ≠ Nat.pow 2 96 := by omega
        rw [ih rfl hroom.2]
        simp [hdigit, hfull]
      · have hcut := isSome_cutAt_iff hcoeff (c.toNat - 48)
        by_cases honly : onlyDigits cs = true
        · have hrest := (onlyDigits_iff cs).1 honly
          rw [if_pos honly, hcut]
          constructor
          · intro h
            refine ⟨⟨Or.inl hdigit, hrest⟩, Or.inr ⟨c, rfl, hdigit⟩, ?_⟩
            intro hplaces hfull d hd
            obtain rfl := Option.some.inj hd
            exact h hplaces hfull
          · rintro ⟨-, -, h⟩ hplaces hfull
            exact h hplaces hfull c rfl
        · rw [if_neg honly]
          refine iff_of_false (by simp) ?_
          rintro ⟨⟨-, hrest⟩, -⟩
          exact honly ((onlyDigits_iff cs).2 hrest)
    · by_cases hunderscore : c = '_'
      · subst hunderscore
        rw [digitsOf, List.filter_cons_of_neg hdigit]
        by_cases hseen : r.digitSeen = true
        · rw [readMagnitude_underscore r cs hseen]
          split
          · -- no place is left, so there is one to give up
            rename_i hends
            have hplaces := Reading.places_of_endsAtUnderscore hends
            rw [← onlyDigits_iff]
            split <;> simp_all
          · rw [ih hpoint hcoeff]
            simp [hseen, digitsOf]
        · rw [readMagnitude_eq_none r cs rfl (fun _ => by simpa using hseen) (fun _ => hpoint)]
          simp [hseen]
      · rw [readMagnitude_eq_none r cs (by simpa using hdigit) (fun h => absurd h hunderscore)
          (fun _ => hpoint)]
        simp [hdigit, hunderscore]

theorem wholePart_cons {c : Char} (hc : c ≠ '.') (cs : List Char) :
    wholePart (c :: cs) = c :: wholePart cs :=
  List.takeWhile_cons_of_pos (by simpa using hc)

theorem fractionPart_cons {c : Char} (hc : c ≠ '.') (cs : List Char) :
    fractionPart (c :: cs) = fractionPart cs := by
  unfold fractionPart
  rw [List.dropWhile_cons_of_pos (by simpa using hc)]

/-- A digit is part of the coefficient that is read on from. -/
theorem legible_digit_iff {c : Char} (hc : c.isDigit) (digitSeen : Bool) (coeff : Nat)
    (whole fraction : List Char) :
    Legible digitSeen coeff (c :: whole) fraction ↔
      Legible true (coeff * 10 + (c.toNat - 48)) whole fraction := by
  have hvalue := ofDigitChars_digitsOf_cons hc whole coeff
  constructor
  · rintro ⟨hchars, -, hfits, hrounds⟩
    rw [hvalue] at hfits hrounds
    exact ⟨fun d hd => hchars d (List.mem_cons_of_mem c hd), Or.inl rfl, hfits, hrounds⟩
  · rintro ⟨hchars, -, hfits, hrounds⟩
    rw [← hvalue] at hfits hrounds
    refine ⟨?_, Or.inr ⟨c, rfl, hc⟩, hfits, hrounds⟩
    intro d hd
    rcases List.mem_cons.1 hd with rfl | hd
    · exact Or.inl hc
    · exact hchars d hd

/-- An underscore behind a digit is no part of the number. -/
theorem legible_underscore_iff (coeff : Nat) (whole fraction : List Char) :
    Legible true coeff ('_' :: whole) fraction ↔ Legible true coeff whole fraction := by
  constructor
  · rintro ⟨hchars, -, hfits, hrounds⟩
    exact ⟨fun d hd => hchars d (List.mem_cons_of_mem _ hd), Or.inl rfl, hfits, hrounds⟩
  · rintro ⟨hchars, -, hfits, hrounds⟩
    refine ⟨?_, Or.inl rfl, hfits, hrounds⟩
    intro d hd
    rcases List.mem_cons.1 hd with rfl | hd
    · exact Or.inr rfl
    · exact hchars d hd

/-- In front of the point the coefficient itself has to fit. -/
theorem isSome_readMagnitude_whole {coeff : Nat} {digitSeen : Bool} (hcoeff : coeff < Nat.pow 2 96)
    (cs : List Char) :
    (readMagnitude ⟨coeff, 0, false, digitSeen⟩ cs).isSome ↔
      Legible digitSeen coeff (wholePart cs) (fractionPart cs) := by
  induction cs generalizing coeff digitSeen with
  | nil =>
    rw [readMagnitude]
    constructor
    · intro h
      have hseen : digitSeen = true := by
        cases digitSeen with
        | true => rfl
        | false => cases h
      exact ⟨by simp [wholePart, fractionPart], Or.inl hseen, hcoeff,
        by simp [fractionPart, digitsOf]⟩
    · rintro ⟨-, hseen | ⟨c, hc, -⟩, -⟩
      · rw [hseen]
        rfl
      · cases hc
  | cons c cs ih =>
    by_cases hdigit : c.isDigit = true
    · have hpoint : c ≠ '.' := by
        rintro rfl
        cases hdigit
      rw [readMagnitude_whole_digit _ cs hdigit rfl, wholePart_cons hpoint,
        fractionPart_cons hpoint, legible_digit_iff hdigit]
      split
      · exact ih ‹_›
      · rename_i hroom
        refine iff_of_false (by simp) ?_
        rintro ⟨-, -, hfits, -⟩
        exact hroom (Nat.lt_of_le_of_lt (Text.le_ofDigitChars _ _) hfits)
    · by_cases hpoint : c = '.'
      · subst hpoint
        rw [readMagnitude_point _ cs rfl, isSome_readMagnitude_fraction rfl hcoeff]
        constructor
        · rintro ⟨hchars, hfirst, hrounds⟩
          exact ⟨hchars, hfirst, hcoeff, hrounds rfl⟩
        · rintro ⟨hchars, hfirst, -, hrounds⟩
          exact ⟨hchars, hfirst, fun _ => hrounds⟩
      · rw [wholePart_cons hpoint, fractionPart_cons hpoint]
        by_cases hunderscore : c = '_' ∧ digitSeen = true
        · obtain ⟨rfl, rfl⟩ := hunderscore
          rw [readMagnitude_underscore _ cs rfl, legible_underscore_iff]
          exact ih hcoeff
        · rw [readMagnitude_eq_none _ cs (by simpa using hdigit) ?_ (fun h => absurd h hpoint)]
          · refine iff_of_false (by simp) ?_
            rintro ⟨hchars, hfirst, -⟩
            rcases hchars c List.mem_cons_self with h | h
            · exact hdigit h
            · exact hunderscore ⟨h, seen_of_not_digit hdigit hfirst⟩
          · intro h
            simpa [h] using hunderscore

/-! ## What is read -/

theorem cutAt_bounds {r : Reading} {d n places : Nat} (hcoeff : r.coeff < Nat.pow 2 96)
    (hplaces : r.places ≤ 28) (h : r.cutAt d = some (n, places)) :
    n < Nat.pow 2 96 ∧ places ≤ 28 := by
  have hbig : 10 < Nat.pow 2 96 := by decide
  unfold Reading.cutAt at h
  split at h
  · cases h
    exact ⟨hcoeff, hplaces⟩
  split at h
  · rename_i hroom
    cases h
    exact ⟨hroom, hplaces⟩
  split at h
  · cases h
  · cases h
    unfold roundHalfUp
    omega

/-- Whatever is read is within the bounds of a decimal. -/
theorem readMagnitude_bounds {r : Reading} {cs : List Char} {n places : Nat}
    (hcoeff : r.coeff < Nat.pow 2 96) (hplaces : r.places ≤ 28)
    (h : readMagnitude r cs = some (n, places)) : n < Nat.pow 2 96 ∧ places ≤ 28 := by
  fun_induction readMagnitude r cs with
  | case1 =>
    cases h
    exact ⟨hcoeff, hplaces⟩
  | case4 =>
    cases h
    exact ⟨hcoeff, hplaces⟩
  | case6 =>
    rename_i ih
    exact ih hcoeff hplaces h
  | case8 =>
    rename_i ih
    exact ih hcoeff hplaces h
  | case10 =>
    -- one more place behind the point
    rename_i hroom ih
    exact ih hroom.2 hroom.1 h
  | case11 => exact cutAt_bounds hcoeff hplaces h
  | case13 =>
    rename_i hroom ih
    exact ih hroom (Nat.zero_le 28) h
  | _ => cases h

theorem isSome_ofParts?_iff (coeff : Int) (scale : Nat) :
    (ofParts? coeff scale).isSome ↔ coeff.natAbs < Nat.pow 2 96 ∧ scale ≤ 28 := by
  unfold ofParts? ofSigned?
  split <;> simp_all

theorem coeff_eq_signed (d : Decimal) : d.coeff = signed d.negative d.magnitude :=
  rfl

theorem natAbs_signed (negative : Bool) (n : Nat) : (signed negative n).natAbs = n := by
  unfold signed
  split <;> simp

/-- Plain notation is read as the digits behind the sign. -/
theorem readPlain_eq (t : List Char) :
    readPlain t = (readMagnitude ⟨0, 0, false, false⟩ (unsigned t)).bind fun read =>
      ofParts? (signed (t.head? = some '-') read.1) read.2 := by
  unfold readPlain
  split
  rename_i negative cs hsign
  have hparts : decide (t.head? = some '-') = negative ∧ unsigned t = cs := by
    split at hsign
    · cases hsign
      exact ⟨rfl, rfl⟩
    · cases hsign
      exact ⟨rfl, rfl⟩
    · rename_i hminus hplus
      cases hsign
      constructor
      · refine decide_eq_false fun hhead => ?_
        obtain ⟨cs, hcs⟩ := List.head?_eq_some_iff.1 hhead
        exact hminus cs hcs
      · unfold unsigned
        split
        · exact absurd rfl (hminus _)
        · exact absurd rfl (hplus _)
        · rfl
  rw [hparts.1, hparts.2]
  rcases readMagnitude ⟨0, 0, false, false⟩ cs with _ | ⟨n, places⟩
  · rfl
  · rfl

/-- Plain notation is read, and nothing else is. -/
theorem isSome_readPlain_iff (t : List Char) : (readPlain t).isSome ↔ PlainNotation t := by
  have hwhole : (readMagnitude ⟨0, 0, false, false⟩ (unsigned t)).isSome ↔ PlainNotation t :=
    isSome_readMagnitude_whole (by decide) _
  rw [readPlain_eq, ← hwhole]
  rcases hread : readMagnitude ⟨0, 0, false, false⟩ (unsigned t) with _ | ⟨n, places⟩
  · rfl
  · refine iff_of_true ?_ rfl
    rw [Option.bind_some, isSome_ofParts?_iff, natAbs_signed]
    exact readMagnitude_bounds (r := ⟨0, 0, false, false⟩) (by decide) (by decide) hread

/-! ## Digits that all count -/

/-- Behind the point all digits count if they fit. -/
theorem readMagnitude_fraction_of_fits {r : Reading} {cs : List Char} (hpoint : r.pointSeen = true)
    (hchars : ∀ c ∈ cs, c.isDigit ∨ c = '_')
    (hfirst : r.digitSeen = true ∨ ∃ c, cs.head? = some c ∧ c.isDigit)
    (hvalue : Nat.ofDigitChars 10 (digitsOf cs) r.coeff < Nat.pow 2 96)
    (hplaces : r.places + (digitsOf cs).length ≤ 28) :
    readMagnitude r cs =
      some (Nat.ofDigitChars 10 (digitsOf cs) r.coeff, r.places + (digitsOf cs).length) := by
  induction cs generalizing r with
  | nil =>
    rcases hfirst with hseen | ⟨c, hc, -⟩
    · rw [readMagnitude, if_pos hseen]
      rfl
    · cases hc
  | cons c cs ih =>
    have hrest : ∀ d ∈ cs, d.isDigit ∨ d = '_' := fun d hd => hchars d (List.mem_cons_of_mem c hd)
    by_cases hdigit : c.isDigit = true
    · rw [ofDigitChars_digitsOf_cons hdigit] at hvalue ⊢
      rw [digitsOf_cons hdigit, List.length_cons] at hplaces ⊢
      have hroom : r.coeff * 10 + (c.toNat - 48) < Nat.pow 2 96 :=
        Nat.lt_of_le_of_lt (Text.le_ofDigitChars _ _) hvalue
      rw [readMagnitude_fraction_digit r cs hdigit hpoint, if_pos ⟨by omega, hroom⟩,
        ih rfl hrest (Or.inl rfl) hvalue (by simp only; omega)]
      simp only [Option.some.injEq, Prod.mk.injEq, true_and]
      omega
    · obtain rfl : c = '_' := (hchars c List.mem_cons_self).resolve_left hdigit
      have hseen := seen_of_not_digit hdigit hfirst
      have hsame : digitsOf ('_' :: cs) = digitsOf cs := List.filter_cons_of_neg hdigit
      rw [hsame] at hvalue hplaces ⊢
      rw [readMagnitude_underscore r cs hseen]
      split
      · -- all places are taken, so no digit is left
        rename_i hends
        have hfull := Reading.places_of_endsAtUnderscore hends
        have hnone : digitsOf cs = [] := List.length_eq_zero_iff.1 (by omega)
        rw [if_pos ((onlyDigits_iff cs).2 hrest), hnone]
        rfl
      · exact ih hpoint hrest (Or.inl hseen) hvalue hplaces

/-- All digits count if they fit. -/
theorem readMagnitude_of_fits {coeff : Nat} {digitSeen : Bool} {cs : List Char}
    (h : Legible digitSeen coeff (wholePart cs) (fractionPart cs))
    (hvalue : Nat.ofDigitChars 10 (digitsOf cs) coeff < Nat.pow 2 96)
    (hplaces : (digitsOf (fractionPart cs)).length ≤ 28) :
    readMagnitude ⟨coeff, 0, false, digitSeen⟩ cs =
      some (Nat.ofDigitChars 10 (digitsOf cs) coeff, (digitsOf (fractionPart cs)).length) := by
  induction cs generalizing coeff digitSeen with
  | nil =>
    rcases h.digit_first with hseen | ⟨c, hc, -⟩
    · rw [readMagnitude, if_pos hseen]
      rfl
    · cases hc
  | cons c cs ih =>
    by_cases hdigit : c.isDigit = true
    · have hpoint : c ≠ '.' := by
        rintro rfl
        cases hdigit
      rw [wholePart_cons hpoint, fractionPart_cons hpoint, legible_digit_iff hdigit] at h
      rw [ofDigitChars_digitsOf_cons hdigit] at hvalue ⊢
      rw [fractionPart_cons hpoint] at hplaces ⊢
      have hroom : coeff * 10 + (c.toNat - 48) < Nat.pow 2 96 :=
        Nat.lt_of_le_of_lt (Text.le_ofDigitChars _ _) hvalue
      rw [readMagnitude_whole_digit _ cs hdigit rfl, if_pos hroom]
      exact ih h hvalue hplaces
    · have hsame : digitsOf (c :: cs) = digitsOf cs := List.filter_cons_of_neg hdigit
      rw [hsame] at hvalue ⊢
      by_cases hpoint : c = '.'
      · subst hpoint
        have hfraction : fractionPart ('.' :: cs) = cs := rfl
        rw [hfraction] at hplaces ⊢
        have hchars : ∀ c ∈ cs, c.isDigit ∨ c = '_' := h.chars
        have hfirst : digitSeen = true ∨ ∃ c, cs.head? = some c ∧ c.isDigit := h.digit_first
        have hread := readMagnitude_fraction_of_fits (r := ⟨coeff, 0, true, digitSeen⟩) rfl hchars
          hfirst hvalue (by simpa using hplaces)
        rw [Nat.zero_add] at hread
        exact (readMagnitude_point _ cs rfl).trans hread
      · rw [wholePart_cons hpoint, fractionPart_cons hpoint] at h
        rw [fractionPart_cons hpoint] at hplaces ⊢
        -- what is left is an underscore behind a digit
        have hunderscore : c = '_' := (h.chars c List.mem_cons_self).resolve_left hdigit
        have hseen := seen_of_not_digit hdigit h.digit_first
        subst hunderscore hseen
        rw [readMagnitude_underscore _ cs rfl]
        exact ih ((legible_underscore_iff _ _ _).1 h) hvalue hplaces

/-! ## The number that is written -/

/-- The number that the digits of a text make without the point, with the sign of the text. -/
def writtenCoeff (t : List Char) : Int :=
  signed (t.head? = some '-') (Nat.ofDigitChars 10 (digitsOf t) 0)

/-- How many digits of a text stand behind the point. -/
def writtenPlaces (t : List Char) : Nat :=
  (digitsOf (fractionPart t)).length

theorem unsigned_cases (t : List Char) :
    unsigned t = t ∨ ∃ sign, (sign = '-' ∨ sign = '+') ∧ t = sign :: unsigned t := by
  unfold unsigned
  split
  · exact Or.inr ⟨_, Or.inl rfl, rfl⟩
  · exact Or.inr ⟨_, Or.inr rfl, rfl⟩
  · exact Or.inl rfl

/-- The sign has no part in the digits. -/
theorem digitsOf_unsigned (t : List Char) :
    digitsOf (unsigned t) = digitsOf t ∧ fractionPart (unsigned t) = fractionPart t := by
  rcases unsigned_cases t with h | ⟨sign, hsign, h⟩
  · rw [h]
    exact ⟨rfl, rfl⟩
  · have hdigit : ¬ sign.isDigit = true := by rcases hsign with rfl | rfl <;> decide
    have hpoint : sign ≠ '.' := by rcases hsign with rfl | rfl <;> decide
    have hdigits : digitsOf (sign :: unsigned t) = digitsOf (unsigned t) :=
      List.filter_cons_of_neg hdigit
    have hfraction : fractionPart (sign :: unsigned t) = fractionPart (unsigned t) :=
      fractionPart_cons hpoint _
    rw [← h] at hdigits hfraction
    exact ⟨hdigits.symm, hfraction.symm⟩

/-- All digits count if they fit: plain notation is read as the number that is written. -/
theorem readPlain_of_fits {t : List Char} (h : PlainNotation t)
    (hcoeff : (writtenCoeff t).natAbs < Nat.pow 2 96) (hplaces : writtenPlaces t ≤ 28) :
    readPlain t = ofParts? (writtenCoeff t) (writtenPlaces t) := by
  obtain ⟨hdigits, hfraction⟩ := digitsOf_unsigned t
  unfold writtenCoeff at hcoeff
  unfold writtenPlaces at hplaces
  rw [natAbs_signed, ← hdigits] at hcoeff
  rw [← hfraction] at hplaces
  rw [readPlain_eq, readMagnitude_of_fits h hcoeff hplaces, hdigits, hfraction]
  rfl

/-- A text in plain notation has no letters. -/
theorem PlainNotation.mem {t : List Char} (h : PlainNotation t) {c : Char} (hc : c ∈ t) :
    c = '-' ∨ c = '+' ∨ c = '.' ∨ c = '_' ∨ c.isDigit := by
  have hunsigned {c : Char} (hc : c ∈ unsigned t) : c = '.' ∨ c = '_' ∨ c.isDigit := by
    have hsplit : unsigned t = wholePart (unsigned t) ++ (unsigned t).dropWhile (· ≠ '.') :=
      List.takeWhile_append_dropWhile.symm
    rw [hsplit] at hc
    rcases List.mem_append.1 hc with hc | hc
    · exact Or.inr (h.chars c (List.mem_append_left _ hc)).symm
    · rcases hbehind : (unsigned t).dropWhile (· ≠ '.') with _ | ⟨point, fraction⟩
      · rw [hbehind] at hc
        cases hc
      · have hpoint : point = '.' := by
          have hhead := List.head?_dropWhile_not (· ≠ '.') (unsigned t)
          rw [hbehind] at hhead
          simpa using hhead
        have hfraction : fractionPart (unsigned t) = fraction := by
          unfold fractionPart
          rw [hbehind]
          rfl
        rw [hbehind] at hc
        rcases List.mem_cons.1 hc with rfl | hc
        · exact Or.inl hpoint
        · refine Or.inr (h.chars c (List.mem_append_right _ ?_)).symm
          rw [hfraction]
          exact hc
  rcases unsigned_cases t with hsame | ⟨sign, hsign, hsame⟩
  · rw [← hsame] at hc
    exact Or.inr (Or.inr (hunsigned hc))
  · rw [hsame] at hc
    rcases List.mem_cons.1 hc with rfl | hc
    · rcases hsign with rfl | rfl
      · exact Or.inl rfl
      · exact Or.inr (Or.inl rfl)
    · exact Or.inr (Or.inr (hunsigned hc))

end TransferDesk.Decimal
