import Mathlib.Algebra.Group.Nat.Defs
import TransferDesk.Proofs.Decimal.Plain
import TransferDesk.Proofs.Text.Tokens
/-!
# The notations of decimals

`ScientificNotation` says which texts are read as decimals in scientific notation: plain notation,
an `e` in either case and an exponent up to 28 that leaves the number within 96 bits
(`isSome_readScientific_iff`). The exponent moves the point (`readScientific_eq_some_iff`).

A text is tried in plain notation first. `Spelled` says which decimal it is in the one or else in
the other (`ofChars?_eq_some_iff`).
-/

namespace TransferDesk.Decimal

open TransferDesk.Text (Numeral readInteger readInteger_natural_eq_ok_iff)

/-! ## Scientific notation -/

/-- Plain notation, an `e` in either case and an exponent of at most 28, with a minus or without. If
it has none, the number has to stay within 96 bits. -/
inductive ScientificNotation : List Char → Prop
  | down {base exponent : List Char} {mark : Char} {d : Decimal} {e : Nat}
    (hmark : mark = 'e' ∨ mark = 'E') (hbase : readPlain base = some d)
    (hexponent : Numeral exponent e) (hbare : exponent.head? ≠ some '-') (he : e ≤ 28) :
    ScientificNotation (base ++ mark :: '-' :: exponent)
  | up {base exponent : List Char} {mark : Char} {d : Decimal} {e : Nat}
    (hmark : mark = 'e' ∨ mark = 'E') (hbase : readPlain base = some d)
    (hexponent : Numeral exponent e) (hbare : exponent.head? ≠ some '-') (he : e ≤ 28)
    (hroom : d.magnitude * 10 ^ (e - d.scale) < Nat.pow 2 96) :
    ScientificNotation (base ++ mark :: exponent)

theorem readExponent_eq_some_iff {s : List Char} {e : Nat} :
    readExponent s = some e ↔ (Numeral s e ∧ s.head? ≠ some '-') ∧ e ≤ 4294967295 := by
  unfold readExponent
  constructor
  · intro h
    rcases hread : readInteger 10 0 4294967295 s with fault | z
    · rw [hread] at h
      cases h
    · rw [hread] at h
      obtain rfl : z.toNat = e := Option.some.inj h
      obtain ⟨hnumeral, hpos, hle⟩ := (readInteger_natural_eq_ok_iff (by decide) s).1 hread
      rw [Int.toNat_of_nonneg hpos]
      exact ⟨hnumeral, by omega⟩
  · rintro ⟨hnumeral, hle⟩
    have hread : readInteger 10 0 4294967295 s = .ok (e : Int) :=
      (readInteger_natural_eq_ok_iff (by decide) s).2 ⟨hnumeral, by omega, by omega⟩
    rw [hread]
    rfl

theorem isSome_ofSigned?_iff (negative : Bool) (magnitude scale : Nat) :
    (ofSigned? negative magnitude scale).isSome ↔ magnitude < Nat.pow 2 96 ∧ scale ≤ 28 := by
  unfold ofSigned?
  split <;> simp_all

theorem roundHalfUp_le {n d : Nat} (hd : 0 < d) : roundHalfUp n d ≤ n := by
  have hn : n ≤ n * d := Nat.le_mul_of_pos_right n hd
  have hexpand : (n + 1) * (2 * d) = 2 * (n * d) + 2 * d := by
    rw [Nat.add_mul, Nat.one_mul, Nat.mul_left_comm]
  unfold roundHalfUp
  refine Nat.le_of_lt_succ ((Nat.div_lt_iff_lt_mul (by omega)).2 ?_)
  rw [Nat.succ_eq_add_one, hexpand]
  omega

/-- A smaller number always has room. -/
theorem isSome_shiftDown?_iff (d : Decimal) (e : Nat) : (d.shiftDown? e).isSome ↔ e ≤ 28 := by
  unfold shiftDown?
  split
  · simp
    omega
  · rename_i he
    refine iff_of_true ?_ (Nat.not_lt.1 he)
    split
    · rw [isSome_ofSigned?_iff]
      exact ⟨d.magnitude_lt, ‹_›⟩
    · rw [isSome_ofSigned?_iff]
      refine ⟨Nat.lt_of_le_of_lt (roundHalfUp_le ?_) d.magnitude_lt, Nat.le_refl 28⟩
      exact Nat.pow_pos (by decide)

/-- A larger number has room if it gets no more digits than there are. -/
theorem isSome_shiftUp?_iff (d : Decimal) (e : Nat) :
    (d.shiftUp? e).isSome ↔ e ≤ 28 ∧ d.magnitude * 10 ^ (e - d.scale) < Nat.pow 2 96 := by
  have hscale := d.scale_le
  unfold shiftUp?
  split
  · rename_i hle
    have hzero : e - d.scale = 0 := by omega
    rw [isSome_ofParts?_iff, natAbs_coeff, hzero, Nat.pow_zero, Nat.mul_one]
    exact ⟨fun h => ⟨by omega, h.1⟩, fun h => ⟨h.2, by omega⟩⟩
  split
  · simp
    omega
  · rename_i he
    have hpow : (Int.pow 10 (e - d.scale)).natAbs = 10 ^ (e - d.scale) := Int.natAbs_pow 10 _
    rw [isSome_ofParts?_iff, Int.natAbs_mul, natAbs_coeff, hpow]
    exact ⟨fun h => ⟨by omega, h.1⟩, fun h => ⟨h.2, by decide⟩⟩

/-- The number with an exponent applied to it. -/
def shift? (d : Decimal) (exponent : List Char) : Option Decimal :=
  match exponent with
  | '-' :: digits => (readExponent digits).bind d.shiftDown?
  | digits => (readExponent digits).bind d.shiftUp?

/-- The character stands between a number and its exponent. -/
def isMark (c : Char) : Bool :=
  c = 'e' ∨ c = 'E'

theorem readScientific_eq (t : List Char) :
    readScientific t =
      match t.dropWhile (!isMark ·) with
      | [] => none
      | _ :: exponent => (readPlain (t.takeWhile (!isMark ·))).bind (·.shift? exponent) := by
  unfold readScientific isMark
  dsimp only
  cases t.dropWhile fun c => !decide (c = 'e' ∨ c = 'E') with
  | nil => rfl
  | cons mark exponent => cases readPlain (t.takeWhile fun c => !decide (c = 'e' ∨ c = 'E')) <;> rfl

theorem readScientific_mark {base : List Char} {mark : Char}
    (hbase : ∀ c ∈ base, (!isMark c) = true) (hmark : isMark mark = true) (exponent : List Char) :
    readScientific (base ++ mark :: exponent) = (readPlain base).bind (·.shift? exponent) := by
  have hstop : (!isMark mark) = false := by simp [hmark]
  obtain ⟨htake, hdrop⟩ := Text.cut_at_stop (p := (!isMark ·)) hbase hstop exponent
  rw [readScientific_eq, hdrop, htake]

/-- What is read has a mark. -/
theorem exists_mark_of_readScientific {t : List Char} (h : (readScientific t).isSome) :
    ∃ base mark exponent, t = base ++ mark :: exponent ∧ isMark mark = true ∧
      ∀ c ∈ base, (!isMark c) = true := by
  have hsplit : t.takeWhile (!isMark ·) ++ t.dropWhile (!isMark ·) = t :=
    List.takeWhile_append_dropWhile
  have hhead := List.head?_dropWhile_not (!isMark ·) t
  rw [readScientific_eq] at h
  rcases hdrop : t.dropWhile (!isMark ·) with _ | ⟨mark, exponent⟩
  · rw [hdrop] at h
    cases h
  · rw [hdrop] at hsplit hhead
    refine ⟨_, mark, exponent, hsplit.symm, by simpa using hhead, ?_⟩
    intro c hc
    exact List.all_eq_true.1 List.all_takeWhile c hc

theorem no_mark_of_readPlain {base : List Char} {d : Decimal} (h : readPlain base = some d) :
    ∀ c ∈ base, (!isMark c) = true := by
  have hplain : PlainNotation base := by
    rw [← isSome_readPlain_iff, h]
    rfl
  intro c hc
  rcases hplain.mem hc with rfl | rfl | rfl | rfl | hdigit
  · rfl
  · rfl
  · rfl
  · rfl
  · have hne (mark : Char) (hmark : mark.isDigit = false) : c ≠ mark := by
      rintro rfl
      rw [hdigit] at hmark
      cases hmark
    simp [isMark, hne 'e' rfl, hne 'E' rfl]

theorem isMark_iff {c : Char} : isMark c = true ↔ c = 'e' ∨ c = 'E' :=
  decide_eq_true_iff

/-- An exponent that is read and then leaves a number is not too large to be read. -/
theorem bind_readExponent_eq_some_iff {s : List Char} {f : Nat → Option Decimal}
    (hf : ∀ e, (f e).isSome → e ≤ 28) {d : Decimal} :
    (readExponent s).bind f = some d ↔
      ∃ e : Nat, Numeral s e ∧ s.head? ≠ some '-' ∧ f e = some d := by
  rw [Option.bind_eq_some_iff]
  constructor
  · rintro ⟨e, hread, hd⟩
    obtain ⟨⟨hnumeral, hbare⟩, -⟩ := readExponent_eq_some_iff.1 hread
    exact ⟨e, hnumeral, hbare, hd⟩
  · rintro ⟨e, hnumeral, hbare, hd⟩
    have he : e ≤ 28 := hf e (by rw [hd]; rfl)
    exact ⟨e, readExponent_eq_some_iff.2 ⟨⟨hnumeral, hbare⟩, Nat.le_trans he (by decide)⟩, hd⟩

/-- Plain notation, an `e` in either case and an exponent, with a minus or without, that moves the
point. -/
inductive SpelledScientific (d : Decimal) : List Char → Prop
  | down {base exponent : List Char} {mark : Char} {d₀ : Decimal} {e : Nat}
    (hmark : mark = 'e' ∨ mark = 'E') (hbase : readPlain base = some d₀)
    (hexponent : Numeral exponent e) (hbare : exponent.head? ≠ some '-')
    (hd : d₀.shiftDown? e = some d) : SpelledScientific d (base ++ mark :: '-' :: exponent)
  | up {base exponent : List Char} {mark : Char} {d₀ : Decimal} {e : Nat}
    (hmark : mark = 'e' ∨ mark = 'E') (hbase : readPlain base = some d₀)
    (hexponent : Numeral exponent e) (hbare : exponent.head? ≠ some '-')
    (hd : d₀.shiftUp? e = some d) : SpelledScientific d (base ++ mark :: exponent)

theorem shift?_minus (d : Decimal) (digits : List Char) :
    d.shift? ('-' :: digits) = (readExponent digits).bind d.shiftDown? :=
  rfl

theorem shift?_bare (d : Decimal) {exponent : List Char} (h : exponent.head? ≠ some '-') :
    d.shift? exponent = (readExponent exponent).bind d.shiftUp? := by
  unfold shift?
  split
  · exact absurd rfl h
  · rfl

/-- Scientific notation is read as the number with the point moved, and nothing else is read. -/
theorem readScientific_eq_some_iff {t : List Char} {d : Decimal} :
    readScientific t = some d ↔ SpelledScientific d t := by
  have hdown (d₀ : Decimal) (e : Nat) (h : (d₀.shiftDown? e).isSome) : e ≤ 28 :=
    (isSome_shiftDown?_iff d₀ e).1 h
  have hup (d₀ : Decimal) (e : Nat) (h : (d₀.shiftUp? e).isSome) : e ≤ 28 :=
    ((isSome_shiftUp?_iff d₀ e).1 h).1
  constructor
  · intro h
    obtain ⟨base, mark, exponent, rfl, hmark, hbase⟩ :=
      exists_mark_of_readScientific (t := t) (by rw [h]; rfl)
    rw [readScientific_mark hbase hmark] at h
    obtain ⟨d₀, hread, hshift⟩ := Option.bind_eq_some_iff.1 h
    by_cases hminus : exponent.head? = some '-'
    · obtain ⟨digits, rfl⟩ := List.head?_eq_some_iff.1 hminus
      rw [shift?_minus] at hshift
      obtain ⟨e, hnumeral, hbare, hd⟩ := (bind_readExponent_eq_some_iff (hdown d₀)).1 hshift
      exact .down (isMark_iff.1 hmark) hread hnumeral hbare hd
    · rw [shift?_bare d₀ hminus] at hshift
      obtain ⟨e, hnumeral, hbare, hd⟩ := (bind_readExponent_eq_some_iff (hup d₀)).1 hshift
      exact .up (isMark_iff.1 hmark) hread hnumeral hbare hd
  · rintro (⟨hmark, hbase, hexponent, hbare, hd⟩ | ⟨hmark, hbase, hexponent, hbare, hd⟩)
    · rw [readScientific_mark (no_mark_of_readPlain hbase) (isMark_iff.2 hmark), hbase,
        Option.bind_some, shift?_minus]
      exact (bind_readExponent_eq_some_iff (hdown _)).2 ⟨_, hexponent, hbare, hd⟩
    · rw [readScientific_mark (no_mark_of_readPlain hbase) (isMark_iff.2 hmark), hbase,
        Option.bind_some, shift?_bare _ hbare]
      exact (bind_readExponent_eq_some_iff (hup _)).2 ⟨_, hexponent, hbare, hd⟩

/-- Scientific notation is read, and nothing else is. -/
theorem isSome_readScientific_iff (t : List Char) :
    (readScientific t).isSome ↔ ScientificNotation t := by
  rw [Option.isSome_iff_exists]
  constructor
  · rintro ⟨d, h⟩
    obtain ⟨hmark, hbase, hexponent, hbare, hd⟩ | ⟨hmark, hbase, hexponent, hbare, hd⟩ :=
      readScientific_eq_some_iff.1 h
    · have he := (isSome_shiftDown?_iff _ _).1 (Option.isSome_of_eq_some hd)
      exact .down hmark hbase hexponent hbare he
    · obtain ⟨he, hroom⟩ := (isSome_shiftUp?_iff _ _).1 (Option.isSome_of_eq_some hd)
      exact .up hmark hbase hexponent hbare he hroom
  · rintro (⟨hmark, hbase, hexponent, hbare, he⟩ | ⟨hmark, hbase, hexponent, hbare, he, hroom⟩)
    · obtain ⟨d, hd⟩ := Option.isSome_iff_exists.1 ((isSome_shiftDown?_iff _ _).2 he)
      exact ⟨d, readScientific_eq_some_iff.2 (.down hmark hbase hexponent hbare hd)⟩
    · obtain ⟨d, hd⟩ := Option.isSome_iff_exists.1 ((isSome_shiftUp?_iff _ _).2 ⟨he, hroom⟩)
      exact ⟨d, readScientific_eq_some_iff.2 (.up hmark hbase hexponent hbare hd)⟩

/-! ## Either notation -/

/-- A text is read as a decimal if it is in plain notation, or else in scientific notation. -/
theorem isSome_ofChars?_iff (t : List Char) :
    (ofChars? t).isSome ↔ PlainNotation t ∨ ScientificNotation t := by
  unfold ofChars?
  rw [← isSome_readPlain_iff, ← isSome_readScientific_iff]
  cases readPlain t <;> cases readScientific t <;> simp

/-- The text is a decimal in plain notation, or else in scientific notation. -/
def Spelled (t : List Char) (d : Decimal) : Prop :=
  PlainNotation t ∧ readPlain t = some d ∨ ¬ PlainNotation t ∧ SpelledScientific d t

theorem ofChars?_eq_some_iff {t : List Char} {d : Decimal} : ofChars? t = some d ↔ Spelled t d := by
  have hplain := isSome_readPlain_iff t
  unfold ofChars? Spelled
  rw [← readScientific_eq_some_iff, ← hplain]
  cases readPlain t <;> simp

theorem exists_spelled_iff (t : List Char) :
    (∃ d, Spelled t d) ↔ PlainNotation t ∨ ScientificNotation t := by
  rw [← isSome_ofChars?_iff, Option.isSome_iff_exists]
  exact exists_congr fun d => ofChars?_eq_some_iff.symm

/-- Plain notation spells the number that is written, if all digits fit. -/
theorem spelled_of_fits {t : List Char} (h : PlainNotation t)
    (hcoeff : (writtenCoeff t).natAbs < Nat.pow 2 96) (hplaces : writtenPlaces t ≤ 28)
    {d : Decimal} :
    Spelled t d ↔ ofParts? (writtenCoeff t) (writtenPlaces t) = some d := by
  unfold Spelled
  rw [readPlain_of_fits h hcoeff hplaces]
  simp [h]

theorem ofChars?_of_readPlain {t : List Char} {d : Decimal} (h : readPlain t = some d) :
    ofChars? t = some d := by
  unfold ofChars?
  rw [h]
  rfl

end TransferDesk.Decimal
