import TransferDesk.Text.Utf8
/-!
# Reading UTF-8 back

The bytes of a text are read back as that text (`decodeLossy_encode`), one character at a time
(`decodeFrom_char`), and a byte below 128 among them stands for the character of that number
(`mem_encode_iff`).
-/

namespace TransferDesk.Text.Utf8

/-! ## Bytes -/

theorem toNat_ofNat {n : Nat} (h : n < 256) : (UInt8.ofNat n).toNat = n :=
  UInt8.toNat_ofNat_of_lt' h

theorem openWith_one {x : Nat} (h : x ≤ 127) :
    openWith (UInt8.ofNat x) = .complete (Char.ofNat x) := by
  have hbyte : (UInt8.ofNat x).toNat = x := toNat_ofNat (by omega)
  have hle : UInt8.ofNat x ≤ 0x7F := by
    rw [UInt8.le_iff_toNat_le, hbyte]
    exact h
  unfold openWith
  rw [if_pos hle, hbyte]

theorem openWith_two : ∀ x < 32, 2 ≤ x →
    openWith (UInt8.ofNat (x + 192)) = .more ⟨1, 0x80, 0xBF, x⟩ := by
  decide

theorem openWith_three : ∀ x < 16, openWith (UInt8.ofNat (x + 224)) =
    .more ⟨2, if x = 0 then 0xA0 else 0x80, if x = 13 then 0x9F else 0xBF, x⟩ := by
  decide

theorem openWith_four : ∀ x < 5, openWith (UInt8.ofNat (x + 240)) =
    .more ⟨3, if x = 0 then 0x90 else 0x80, if x = 4 then 0x8F else 0xBF, x⟩ := by
  decide

/-- A byte in a later place adds its six bits. -/
theorem feed_continuation {p : Pending} {x : Nat} (hx : x < 64) (hlow : p.low.toNat ≤ x + 128)
    (hhigh : x + 128 ≤ p.high.toNat) :
    p.feed (UInt8.ofNat (x + 128)) =
      if p.missing ≤ 1 then .complete (Char.ofNat (p.value * 64 + x))
      else .more ⟨p.missing - 1, 0x80, 0xBF, p.value * 64 + x⟩ := by
  have hbyte : (UInt8.ofNat (x + 128)).toNat = x + 128 := toNat_ofNat (by omega)
  have hbounds : p.low ≤ UInt8.ofNat (x + 128) ∧ UInt8.ofNat (x + 128) ≤ p.high := by
    rw [UInt8.le_iff_toNat_le, UInt8.le_iff_toNat_le, hbyte]
    exact ⟨hlow, hhigh⟩
  unfold Pending.feed
  rw [if_pos hbounds, hbyte, Nat.add_sub_cancel]

theorem continuation_low (x : Nat) : (0x80 : UInt8).toNat ≤ x + 128 :=
  Nat.le_add_left 128 x

theorem continuation_high {x : Nat} (h : x < 64) : x + 128 ≤ (0xBF : UInt8).toNat :=
  Nat.add_le_add_right (Nat.le_of_lt_succ h) 128

/-- The last byte of a character. -/
theorem decodeFrom_last {low high : UInt8} {value x : Nat} (hx : x < 64)
    (hlow : low.toNat ≤ x + 128) (hhigh : x + 128 ≤ high.toNat) (rest : List UInt8) :
    decodeFrom (some ⟨1, low, high, value⟩) (UInt8.ofNat (x + 128) :: rest) =
      some (Char.ofNat (value * 64 + x)) :: decodeFrom none rest := by
  rw [decodeFrom, Option.elim_some, feed_continuation hx hlow hhigh]
  rfl

/-- A byte of a character before the last. -/
theorem decodeFrom_inner {low high : UInt8} {missing value x : Nat} (hx : x < 64)
    (hlow : low.toNat ≤ x + 128) (hhigh : x + 128 ≤ high.toNat) (rest : List UInt8) :
    decodeFrom (some ⟨missing + 2, low, high, value⟩) (UInt8.ofNat (x + 128) :: rest) =
      decodeFrom (some ⟨missing + 1, 0x80, 0xBF, value * 64 + x⟩) rest := by
  rw [decodeFrom, Option.elim_some, feed_continuation hx hlow hhigh]
  rfl

theorem decodeFrom_one {x : Nat} (hx : x ≤ 127) (rest : List UInt8) :
    decodeFrom none (UInt8.ofNat x :: rest) = some (Char.ofNat x) :: decodeFrom none rest := by
  rw [decodeFrom, Option.elim_none, openWith_one hx]

theorem decodeFrom_two {x y : Nat} (hx : x < 32) (hlong : 2 ≤ x) (hy : y < 64) (rest : List UInt8) :
    decodeFrom none (UInt8.ofNat (x + 192) :: UInt8.ofNat (y + 128) :: rest) =
      some (Char.ofNat (x * 64 + y)) :: decodeFrom none rest := by
  rw [decodeFrom, Option.elim_none, openWith_two x hx hlong]
  exact decodeFrom_last hy (continuation_low y) (continuation_high hy) rest

/-- Three bytes whose bits are in no overlong form and no surrogate. -/
theorem decodeFrom_three {x y z : Nat} (hx : x < 16) (hy : y < 64) (hz : z < 64)
    (hlong : x = 0 → 32 ≤ y) (hsurrogate : x = 13 → y < 32) (rest : List UInt8) :
    decodeFrom none
        (UInt8.ofNat (x + 224) :: UInt8.ofNat (y + 128) :: UInt8.ofNat (z + 128) :: rest) =
      some (Char.ofNat ((x * 64 + y) * 64 + z)) :: decodeFrom none rest := by
  have hlow : (if x = 0 then 0xA0 else 0x80 : UInt8).toNat ≤ y + 128 := by
    split
    · have := hlong ‹_›
      simp
      omega
    · exact continuation_low y
  have hhigh : y + 128 ≤ (if x = 13 then 0x9F else 0xBF : UInt8).toNat := by
    split
    · have := hsurrogate ‹_›
      simp
      omega
    · exact continuation_high hy
  rw [decodeFrom, Option.elim_none, openWith_three x hx]
  exact (decodeFrom_inner hy hlow hhigh _).trans
    (decodeFrom_last hz (continuation_low z) (continuation_high hz) rest)

/-- Four bytes whose bits are in no overlong form and not above U+10FFFF. -/
theorem decodeFrom_four {x y z u : Nat} (hx : x < 5) (hy : y < 64) (hz : z < 64) (hu : u < 64)
    (hlong : x = 0 → 16 ≤ y) (hlarge : x = 4 → y < 16) (rest : List UInt8) :
    decodeFrom none (UInt8.ofNat (x + 240) :: UInt8.ofNat (y + 128) :: UInt8.ofNat (z + 128) ::
        UInt8.ofNat (u + 128) :: rest) =
      some (Char.ofNat (((x * 64 + y) * 64 + z) * 64 + u)) :: decodeFrom none rest := by
  have hlow : (if x = 0 then 0x90 else 0x80 : UInt8).toNat ≤ y + 128 := by
    split
    · have := hlong ‹_›
      simp
      omega
    · exact continuation_low y
  have hhigh : y + 128 ≤ (if x = 4 then 0x8F else 0xBF : UInt8).toNat := by
    split
    · have := hlarge ‹_›
      simp
      omega
    · exact continuation_high hy
  rw [decodeFrom, Option.elim_none, openWith_four x hx]
  exact (decodeFrom_inner hy hlow hhigh _).trans
    ((decodeFrom_inner hz (continuation_low z) (continuation_high hz) _).trans
      (decodeFrom_last hu (continuation_low u) (continuation_high hu) rest))

/-! ## Characters -/

/-- The bytes of a character are read back as that character. -/
theorem decodeFrom_char (c : Char) (rest : List UInt8) :
    decodeFrom none (String.utf8EncodeChar c ++ rest) = some c :: decodeFrom none rest := by
  have hvalid : c.val.toNat < 0xD800 ∨ 0xDFFF < c.val.toNat ∧ c.val.toNat < 0x110000 := c.valid
  -- the bits of the bytes are those of the number of the character
  have hback {n : Nat} (h : n = c.val.toNat) : Char.ofNat n = c := h ▸ Char.ofNat_toNat c
  unfold String.utf8EncodeChar
  change decodeFrom none ((if c.val.toNat ≤ 127 then _ else if c.val.toNat ≤ 2047 then _ else
    if c.val.toNat ≤ 65535 then _ else _) ++ rest) = _
  split
  · rw [List.singleton_append, decodeFrom_one ‹_›, hback rfl]
  split
  · simp only [List.cons_append, List.nil_append]
    rw [decodeFrom_two (by omega) (by omega) (by omega), hback (by omega)]
  split
  · simp only [List.cons_append, List.nil_append]
    rw [decodeFrom_three (by omega) (by omega) (by omega) (by omega) (by omega), hback (by omega)]
  · simp only [List.cons_append, List.nil_append]
    rw [decodeFrom_four (by omega) (by omega) (by omega) (by omega) (by omega) (by omega),
      hback (by omega)]

/-! ## Texts -/

@[simp] theorem encode_append (s t : List Char) : encode (s ++ t) = encode s ++ encode t :=
  List.flatMap_append

/-- The bytes of a text are the characters of the text, all of them well-formed. -/
theorem decode_encode (s : List Char) : decode (encode s) = s.map some := by
  induction s with
  | nil => rfl
  | cons c s ih =>
    unfold decode encode at *
    rw [List.flatMap_cons, decodeFrom_char, ih]
    rfl

/-- The bytes of a text are read back as that text. -/
theorem decodeLossy_encode (s : List Char) : decodeLossy (encode s) = s := by
  unfold decodeLossy
  rw [decode_encode, List.map_map]
  exact List.map_id s

theorem validUpTo?_encode (s : List Char) : validUpTo? (encode s) = none := by
  unfold validUpTo?
  rw [decode_encode]
  exact if_pos (by simp)

/-- A character is one byte of its own number, or else all its bytes are 128 and above. -/
theorem encodeChar_cases (c : Char) :
    c.val.toNat < 128 ∧ String.utf8EncodeChar c = [UInt8.ofNat c.val.toNat] ∨
      128 ≤ c.val.toNat ∧ ∀ b ∈ String.utf8EncodeChar c, 128 ≤ b.toNat := by
  have hbyte {b : UInt8} {n : Nat} (h : 128 ≤ n) (hn : n < 256) (hb : b = UInt8.ofNat n) :
      128 ≤ b.toNat := by
    rw [hb, toNat_ofNat hn]
    exact h
  unfold String.utf8EncodeChar
  change _ ∧ (if c.val.toNat ≤ 127 then _ else if c.val.toNat ≤ 2047 then _ else
    if c.val.toNat ≤ 65535 then _ else _) = _ ∨ _
  by_cases hone : c.val.toNat ≤ 127
  · exact Or.inl ⟨by omega, if_pos hone⟩
  · refine Or.inr ⟨by omega, ?_⟩
    intro b hb
    change b ∈ (if c.val.toNat ≤ 127 then _ else if c.val.toNat ≤ 2047 then _ else
      if c.val.toNat ≤ 65535 then _ else _) at hb
    rw [if_neg hone] at hb
    split at hb
    · simp only [List.mem_cons, List.not_mem_nil, or_false] at hb
      rcases hb with hb | hb <;> exact hbyte (by omega) (by omega) hb
    split at hb
    · simp only [List.mem_cons, List.not_mem_nil, or_false] at hb
      rcases hb with hb | hb | hb <;> exact hbyte (by omega) (by omega) hb
    · simp only [List.mem_cons, List.not_mem_nil, or_false] at hb
      rcases hb with hb | hb | hb | hb <;> exact hbyte (by omega) (by omega) hb

/-- A byte below 128 stands for the character of that number, and is part of no other. -/
theorem mem_encodeChar_iff {b : UInt8} (hb : b.toNat < 128) {c : Char} :
    b ∈ String.utf8EncodeChar c ↔ c = Char.ofNat b.toNat := by
  have hnumber : (Char.ofNat b.toNat).val.toNat = b.toNat := by
    have hvalid : b.toNat.isValidChar := Or.inl (by omega)
    rw [Char.ofNat, dif_pos hvalid]
    rfl
  rcases encodeChar_cases c with ⟨hsmall, hone⟩ | ⟨hlarge, hmore⟩
  · rw [hone, List.mem_singleton]
    constructor
    · rintro rfl
      rw [toNat_ofNat (by omega)]
      exact (Char.ofNat_toNat c).symm
    · rintro rfl
      rw [hnumber, UInt8.ofNat_toNat]
  · constructor
    · intro hmem
      exact absurd (hmore b hmem) (by omega)
    · rintro rfl
      omega

/-- A byte below 128 is in the bytes of a text if the character of that number is in the text. -/
theorem mem_encode_iff {b : UInt8} (hb : b.toNat < 128) {s : List Char} :
    b ∈ encode s ↔ Char.ofNat b.toNat ∈ s := by
  unfold encode
  rw [List.mem_flatMap]
  constructor
  · rintro ⟨c, hc, hbyte⟩
    exact (mem_encodeChar_iff hb).1 hbyte ▸ hc
  · intro hc
    exact ⟨_, hc, (mem_encodeChar_iff hb).2 rfl⟩

end TransferDesk.Text.Utf8
