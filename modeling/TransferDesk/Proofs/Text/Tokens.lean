import TransferDesk.Text.Blank
/-!
# Tokens

The tokens of a text are its maximal runs of characters that are not blank: the text is cut at every
blank, and pieces of nothing are left out (`tokens`). `splitToken?` cuts off the first of them
(`tokens_of_splitToken?`), so what follows a number of tokens can be reached one token at a time
(`fromToken`), and that is the text from the beginning of the next token to the very end
(`fromToken_eq_iff`).

What blanks stand between two tokens makes no difference to what follows them (`fromToken_gap`).
-/

namespace TransferDesk.Text

/-- The maximal runs of characters that are not blank. -/
def tokens (s : List Char) : List (List Char) :=
  (s.splitOnP isBlank).filter (· ≠ [])

/-- All characters are blank. -/
def Blank (s : List Char) : Prop :=
  ∀ c ∈ s, isBlank c

instance (s : List Char) : Decidable (Blank s) :=
  decidable_of_iff (s.all isBlank) List.all_eq_true

/-- One or more characters, none of which is blank. -/
structure IsWord (s : List Char) : Prop where
  nonempty : s ≠ []
  solid : ∀ c ∈ s, isBlank c = false

theorem isWord_iff_all {s : List Char} : s ≠ [] ∧ s.all (!isBlank ·) ↔ IsWord s := by
  rw [List.all_eq_true]
  constructor
  · rintro ⟨hne, hall⟩
    exact ⟨hne, fun c hc => by simpa using hall c hc⟩
  · rintro ⟨hne, hsolid⟩
    exact ⟨hne, fun c hc => by simp [hsolid c hc]⟩

instance (s : List Char) : Decidable (IsWord s) :=
  decidable_of_iff _ isWord_iff_all

/-- The text is empty or begins with a blank. -/
def Open (s : List Char) : Prop :=
  ∀ c, s.head? = some c → isBlank c

/-- The text does not begin with a blank. -/
def Solid (s : List Char) : Prop :=
  ∀ c, s.head? = some c → isBlank c = false

/-! ## The tokens of a text -/

@[simp] theorem tokens_nil : tokens [] = [] := rfl

/-- Every blank stands between tokens. -/
theorem tokens_append_blank {c : Char} (hc : isBlank c) (s t : List Char) :
    tokens (s ++ c :: t) = tokens s ++ tokens t := by
  unfold tokens
  rw [List.splitOnP_append_cons s t hc, List.filter_append]

theorem tokens_blank_cons {c : Char} (hc : isBlank c) (s : List Char) :
    tokens (c :: s) = tokens s :=
  tokens_append_blank hc [] s

theorem tokens_blank_append {s : List Char} (h : Blank s) (t : List Char) :
    tokens (s ++ t) = tokens t := by
  induction s with
  | nil => rfl
  | cons c s ih =>
    rw [List.cons_append, tokens_blank_cons (h c List.mem_cons_self)]
    exact ih fun d hd => h d (List.mem_cons_of_mem c hd)

theorem tokens_word {w : List Char} (h : IsWord w) : tokens w = [w] := by
  unfold tokens
  rw [List.splitOnP_eq_singleton h.solid, List.filter_cons_of_pos (by simpa using h.nonempty)]
  rfl

theorem tokens_word_append {w : List Char} (h : IsWord w) {t : List Char} (ht : Open t) :
    tokens (w ++ t) = w :: tokens t := by
  cases t with
  | nil => rw [List.append_nil, tokens_word h, tokens_nil]
  | cons c t =>
    have hc : isBlank c := ht c rfl
    rw [tokens_append_blank hc, tokens_word h, tokens_blank_cons hc]
    rfl

/-- Blanks between tokens separate them, whatever blanks they are. -/
theorem tokens_append_gap {gap : List Char} (hblank : Blank gap) {s : List Char}
    (hne : s = [] ∨ gap ≠ []) (t : List Char) : tokens (s ++ gap ++ t) = tokens s ++ tokens t := by
  cases gap with
  | nil =>
    rcases hne with rfl | hne
    · rfl
    · exact absurd rfl hne
  | cons c gap =>
    have hgap : Blank gap := fun d hd => hblank d (List.mem_cons_of_mem c hd)
    rw [List.append_assoc, List.cons_append, tokens_append_blank (hblank c List.mem_cons_self),
      tokens_blank_append hgap]

/-! ## The first token -/

/-- A text is cut in front of the first character at which to stop. -/
theorem cut_at_stop {p : Char → Bool} {before : List Char} {stop : Char}
    (hbefore : ∀ c ∈ before, p c = true) (hstop : p stop = false) (rest : List Char) :
    (before ++ stop :: rest).takeWhile p = before ∧
      (before ++ stop :: rest).dropWhile p = stop :: rest := by
  have hneg : ¬ p stop = true := by
    rw [hstop]
    exact Bool.false_ne_true
  rw [List.takeWhile_append_of_pos hbefore, List.dropWhile_append_of_pos hbefore,
    List.takeWhile_cons_of_neg hneg, List.dropWhile_cons_of_neg hneg, List.append_nil]
  exact ⟨rfl, rfl⟩

theorem trimStart_blank_append {gap : List Char} (h : Blank gap) (s : List Char) :
    trimStart (gap ++ s) = trimStart s :=
  List.dropWhile_append_of_pos h

theorem trimStart_of_solid {s : List Char} (h : Solid s) : trimStart s = s := by
  cases s with
  | nil => rfl
  | cons c s =>
    have hc : isBlank c = false := h c rfl
    exact List.dropWhile_cons_of_neg (by simp [hc])

theorem solid_trimStart (s : List Char) : Solid (trimStart s) := by
  intro c hc
  have hhead := List.head?_dropWhile_not isBlank s
  unfold trimStart at hc
  rw [hc] at hhead
  simpa using hhead

theorem exists_trimStart (s : List Char) : ∃ gap, s = gap ++ trimStart s ∧ Blank gap := by
  refine ⟨s.takeWhile isBlank, List.takeWhile_append_dropWhile.symm, ?_⟩
  intro c hc
  exact List.all_eq_true.1 List.all_takeWhile c hc

theorem IsWord.solid_append {w : List Char} (h : IsWord w) (s : List Char) : Solid (w ++ s) := by
  intro c hc
  cases w with
  | nil => exact absurd rfl h.nonempty
  | cons d w =>
    obtain rfl : d = c := Option.some.inj hc
    exact h.solid d List.mem_cons_self

/-- The first token has blanks in front of it and ends at a blank or with the text. -/
theorem splitToken?_eq_some_iff {s w rest : List Char} :
    splitToken? s = some (w, rest) ↔
      ∃ gap, s = gap ++ (w ++ rest) ∧ Blank gap ∧ IsWord w ∧ Open rest := by
  constructor
  · intro h
    obtain ⟨gap, hs, hgap⟩ := exists_trimStart s
    have hsolid := solid_trimStart s
    unfold splitToken? at h
    rcases htrim : trimStart s with _ | ⟨c, cs⟩
    · rw [htrim] at h
      cases h
    · rw [htrim] at h hs hsolid
      obtain ⟨rfl, rfl⟩ := Prod.mk.inj (Option.some.inj h)
      refine ⟨gap, ?_, hgap, ⟨?_, ?_⟩, ?_⟩
      · rw [List.takeWhile_append_dropWhile]
        exact hs
      · have hc : isBlank c = false := hsolid c rfl
        rw [List.takeWhile_cons_of_pos (by simp [hc])]
        exact List.cons_ne_nil c _
      · intro d hd
        simpa using List.all_eq_true.1 List.all_takeWhile d hd
      · intro d hd
        have hhead := List.head?_dropWhile_not (!isBlank ·) (c :: cs)
        rw [hd] at hhead
        simpa using hhead
  · rintro ⟨gap, rfl, hgap, hw, hrest⟩
    have htrim : trimStart (gap ++ (w ++ rest)) = w ++ rest := by
      rw [trimStart_blank_append hgap, trimStart_of_solid (hw.solid_append rest)]
    have hpos : ∀ c ∈ w, (!isBlank c) = true := fun c hc => by simp [hw.solid c hc]
    have hopen : rest.takeWhile (!isBlank ·) = [] ∧ rest.dropWhile (!isBlank ·) = rest := by
      cases rest with
      | nil => exact ⟨rfl, rfl⟩
      | cons d rest =>
        have hd : isBlank d = true := hrest d rfl
        simp [hd]
    unfold splitToken?
    rw [htrim]
    rcases hw' : w ++ rest with _ | ⟨c, cs⟩
    · exact absurd (List.append_eq_nil_iff.1 hw').1 hw.nonempty
    · dsimp only
      rw [← hw', List.takeWhile_append_of_pos hpos, List.dropWhile_append_of_pos hpos, hopen.1,
        hopen.2, List.append_nil]

theorem splitToken?_eq_none_iff {s : List Char} : splitToken? s = none ↔ Blank s := by
  unfold splitToken?
  constructor
  · intro h
    rcases htrim : trimStart s with _ | ⟨c, cs⟩
    · obtain ⟨gap, hs, hgap⟩ := exists_trimStart s
      rw [htrim, List.append_nil] at hs
      exact hs ▸ hgap
    · rw [htrim] at h
      cases h
  · intro h
    have htrim : trimStart s = [] := by
      rw [← List.append_nil s, trimStart_blank_append h]
      rfl
    rw [htrim]

/-- What follows the first token holds the other tokens. -/
theorem tokens_of_splitToken? {s w rest : List Char} (h : splitToken? s = some (w, rest)) :
    tokens s = w :: tokens rest := by
  obtain ⟨gap, rfl, hgap, hw, hrest⟩ := splitToken?_eq_some_iff.1 h
  rw [tokens_blank_append hgap, tokens_word_append hw hrest]

theorem tokens_of_blank {s : List Char} (h : Blank s) : tokens s = [] := by
  rw [← List.append_nil s, tokens_blank_append h, tokens_nil]

/-- The text behind the first token does not matter for the token if a blank comes first. -/
theorem splitToken?_append_blank {s w rest : List Char} (h : splitToken? s = some (w, rest))
    {c : Char}
    (hc : isBlank c) (t : List Char) : splitToken? (s ++ c :: t) = some (w, rest ++ c :: t) := by
  obtain ⟨gap, rfl, hgap, hw, hrest⟩ := splitToken?_eq_some_iff.1 h
  refine splitToken?_eq_some_iff.2 ⟨gap, by simp, hgap, hw, ?_⟩
  intro d hd
  cases rest with
  | nil =>
    obtain rfl : c = d := Option.some.inj hd
    exact hc
  | cons e rest => exact hrest d hd

theorem splitToken?_word_blank {w : List Char} (h : IsWord w) {c : Char} (hc : isBlank c)
    (t : List Char) : splitToken? (w ++ c :: t) = some (w, c :: t) := by
  refine splitToken?_eq_some_iff.2 ⟨[], rfl, by simp [Blank], h, ?_⟩
  intro d hd
  exact Option.some.inj hd ▸ hc

theorem tokens_word_blank {w : List Char} (h : IsWord w) {c : Char} (hc : isBlank c)
    (t : List Char) :
    tokens (w ++ c :: t) = w :: tokens t := by
  rw [tokens_of_splitToken? (splitToken?_word_blank h hc t), tokens_blank_cons hc]

theorem tokens_of_splitToken?_none {s : List Char} (h : splitToken? s = none) : tokens s = [] :=
  tokens_of_blank (splitToken?_eq_none_iff.1 h)

/-! ## What follows some tokens -/

/-- The text from the beginning of a token to the very end, if there are so many tokens. The first
token has number zero. -/
def fromToken : Nat → List Char → List Char
  | 0, s => trimStart s
  | n + 1, s =>
    match splitToken? s with
    | none => []
    | some (_, rest) => fromToken n rest

theorem fromToken_succ {s w rest : List Char} (h : splitToken? s = some (w, rest)) (n : Nat) :
    fromToken (n + 1) s = fromToken n rest := by
  rw [fromToken, h]

/-- A blank in front makes no difference. -/
theorem fromToken_blank_append {gap : List Char} (hgap : Blank gap) (n : Nat) (s : List Char) :
    fromToken n (gap ++ s) = fromToken n s := by
  cases n with
  | zero => exact trimStart_blank_append hgap s
  | succ n =>
    rw [fromToken, fromToken]
    unfold splitToken?
    rw [trimStart_blank_append hgap]

theorem fromToken_blank_cons {c : Char} (hc : isBlank c) (n : Nat) (s : List Char) :
    fromToken n (c :: s) = fromToken n s := by
  have hgap : Blank [c] := by simpa [Blank] using hc
  exact fromToken_blank_append hgap n s

theorem fromToken_word_blank {w : List Char} (h : IsWord w) {c : Char} (hc : isBlank c) (n : Nat)
    (t : List Char) : fromToken (n + 1) (w ++ c :: t) = fromToken n t := by
  rw [fromToken_succ (splitToken?_word_blank h hc t)]
  exact fromToken_blank_cons hc n t

/-- The tokens in front of a blank need only be counted. -/
theorem fromToken_append {n : Nat} {c : Char} (hc : isBlank c) {s : List Char}
    (h : (tokens s).length ≤ n) (t : List Char) :
    fromToken n (s ++ c :: t) = fromToken (n - (tokens s).length) t := by
  have hnone {n : Nat} {s : List Char} (h : splitToken? s = none) :
      fromToken n (s ++ c :: t) = fromToken (n - (tokens s).length) t := by
    have hblank : Blank s := splitToken?_eq_none_iff.1 h
    rw [tokens_of_blank hblank, fromToken_blank_append hblank]
    exact fromToken_blank_cons hc n t
  induction n generalizing s with
  | zero =>
    rcases hs : splitToken? s with _ | ⟨w, rest⟩
    · exact hnone hs
    · rw [tokens_of_splitToken? hs] at h
      exact absurd h (Nat.not_succ_le_zero _)
  | succ n ih =>
    rcases hs : splitToken? s with _ | ⟨w, rest⟩
    · exact hnone hs
    · have htokens := tokens_of_splitToken? hs
      rw [htokens, List.length_cons] at h
      rw [fromToken_succ (splitToken?_append_blank hs hc t), htokens, List.length_cons,
        Nat.add_sub_add_right]
      exact ih (Nat.le_of_succ_le_succ h)

/-- There is something from a token on if there is the token. -/
theorem fromToken_eq_nil_iff {n : Nat} {s : List Char} :
    fromToken n s = [] ↔ (tokens s).length ≤ n := by
  induction n generalizing s with
  | zero =>
    rw [fromToken, Nat.le_zero, List.length_eq_zero_iff]
    rcases hs : splitToken? s with _ | ⟨w, rest⟩
    · refine iff_of_true ?_ (tokens_of_splitToken?_none hs)
      unfold splitToken? at hs
      rcases htrim : trimStart s with _ | ⟨c, cs⟩
      · rfl
      · rw [htrim] at hs
        cases hs
    · refine iff_of_false ?_ (by simp [tokens_of_splitToken? hs])
      intro htrim
      unfold splitToken? at hs
      rw [htrim] at hs
      cases hs
  | succ n ih =>
    rw [fromToken]
    rcases hs : splitToken? s with _ | ⟨w, rest⟩
    · simp [tokens_of_splitToken?_none hs]
    · rw [tokens_of_splitToken? hs, List.length_cons, Nat.succ_le_succ_iff]
      exact ih

/-- The text ends with `d`, which begins with token number `n`. -/
def StartsToken (n : Nat) (s d : List Char) : Prop :=
  ∃ front, s = front ++ d ∧ (tokens front).length = n ∧
    (∀ c, front.getLast? = some c → isBlank c) ∧ d ≠ [] ∧ Solid d

theorem StartsToken.succ {n : Nat} {s w rest d : List Char} (h : StartsToken n rest d)
    (hs : splitToken? s = some (w, rest)) : StartsToken (n + 1) s d := by
  obtain ⟨front, rfl, hcount, hlast, hne, hsolid⟩ := h
  obtain ⟨gap, rfl, hgap, hw, hopen⟩ := splitToken?_eq_some_iff.1 hs
  -- the first token ends at a blank, so there is something between it and `d`
  have hfront : front ≠ [] := by
    rintro rfl
    obtain ⟨c, cs, rfl⟩ := List.exists_cons_of_ne_nil hne
    have hblank := hopen c rfl
    rw [hsolid c rfl] at hblank
    cases hblank
  have hopen' : Open front := by
    intro c hc
    refine hopen c ?_
    rw [List.head?_append, hc]
    rfl
  refine ⟨gap ++ (w ++ front), by simp, ?_, ?_, hne, hsolid⟩
  · rw [tokens_blank_append hgap, tokens_word_append hw hopen', List.length_cons, hcount]
  · intro c hc
    refine hlast c ?_
    rw [← List.append_assoc, List.getLast?_append] at hc
    rcases hback : front.getLast? with _ | e
    · exact absurd (List.getLast?_eq_none_iff.1 hback) hfront
    · rwa [hback, Option.some_or] at hc

theorem startsToken_fromToken {n : Nat} {s : List Char} (h : fromToken n s ≠ []) :
    StartsToken n s (fromToken n s) := by
  induction n generalizing s with
  | zero =>
    obtain ⟨gap, hs, hgap⟩ := exists_trimStart s
    refine ⟨gap, hs, by rw [tokens_of_blank hgap, List.length_nil], ?_, h, solid_trimStart s⟩
    intro c hc
    exact hgap c (List.mem_of_getLast? hc)
  | succ n ih =>
    rcases hs : splitToken? s with _ | ⟨w, rest⟩
    · rw [fromToken, hs] at h
      exact absurd rfl h
    · rw [fromToken_succ hs] at h ⊢
      exact (ih h).succ hs

/-- The text has only one part that begins with a token of that number and goes to the end. -/
theorem fromToken_eq_iff {n : Nat} {s d : List Char} :
    fromToken n s = d ∧ d ≠ [] ↔ StartsToken n s d := by
  constructor
  · rintro ⟨rfl, hne⟩
    exact startsToken_fromToken hne
  · rintro ⟨front, rfl, hcount, hlast, hne, hsolid⟩
    refine ⟨?_, hne⟩
    rcases List.eq_nil_or_concat front with rfl | ⟨front, c, rfl⟩
    · obtain rfl : 0 = n := hcount
      exact trimStart_of_solid hsolid
    · have hc : isBlank c := hlast c (by simp)
      rw [List.concat_eq_append] at *
      rw [tokens_append_blank hc, tokens_nil, List.append_nil] at hcount
      rw [List.append_assoc, List.singleton_append, fromToken_append hc (Nat.le_of_eq hcount),
        hcount, Nat.sub_self]
      exact trimStart_of_solid hsolid

/-- What blanks separate some tokens from what follows makes no difference to what follows them. -/
theorem fromToken_gap {n : Nat} {gap : List Char} (hblank : Blank gap) {s : List Char}
    (h : (tokens s).length ≤ n) (hne : s = [] ∨ gap ≠ []) (t : List Char) :
    fromToken n (s ++ gap ++ t) = fromToken (n - (tokens s).length) t := by
  cases gap with
  | nil =>
    rcases hne with rfl | hne
    · rfl
    · exact absurd rfl hne
  | cons c gap =>
    have hgap : Blank gap := fun d hd => hblank d (List.mem_cons_of_mem c hd)
    rw [List.append_assoc, List.cons_append, fromToken_append (hblank c List.mem_cons_self) h,
      fromToken_blank_append hgap]

end TransferDesk.Text
