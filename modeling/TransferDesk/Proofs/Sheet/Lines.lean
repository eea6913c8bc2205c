import Mathlib.Data.Fintype.Defs
import TransferDesk.Proofs.Sheet.Accounts
import TransferDesk.Proofs.Sheet.Written
import TransferDesk.Proofs.Text.Trimming
/-!
# The account in a line

A line that is written for an account shows its row under the names of the columns
(`WrittenLine.Shows`), and it is read as that account (`WrittenLine.Shows.holds`). Texts come back
without the blanks around them, whether the fields are trimmed before or after they are taken for
UTF-8 (`fieldText_trimBytes_encode`), so an account has to do without these (`Account.Presentable`).
-/

namespace TransferDesk

/-- Three ASCII letters in upper case. -/
def Sheet.IsUpperCurrency (s : String) : Prop :=
  s.toList.length = 3 ∧ ∀ c ∈ s.toList, 'A' ≤ c ∧ c ≤ 'Z'

instance (s : String) : Decidable (Sheet.IsUpperCurrency s) :=
  decidable_of_iff (s.toList.length = 3 ∧ s.toList.all fun c => 'A' ≤ c ∧ c ≤ 'Z')
    (and_congr_right' (by simp))

/-- The accounts that a sheet can have: whole cents, a currency in upper case and texts that do not
begin or end with a blank. -/
structure Account.Presentable (a : Account) : Prop where
  customerName : Text.Trimmed a.customerName.toList
  customerEmail : Text.Trimmed a.customerEmail.toList
  kind : Text.Trimmed a.kind.toList
  cents : ∃ n : ℤ, a.balance.value = n / 100
  currency : Sheet.IsUpperCurrency a.currency

/-- The account, whose balance has no minus if it is zero. -/
def Account.withoutNegativeZero (a : Account) : Account :=
  { a with balance := a.balance.withoutNegativeZero }

theorem Decimal.value_withoutNegativeZero (d : Decimal) :
    d.withoutNegativeZero.value = d.value := by
  unfold value
  rw [coeff_withoutNegativeZero]
  rfl

theorem Account.withoutNegativeZero_eq {a : Account}
    (h : a.balance.magnitude = 0 → a.balance.negative = false) : a.withoutNegativeZero = a := by
  unfold withoutNegativeZero
  rw [Decimal.withoutNegativeZero_eq h]

namespace Sheet

open TransferDesk.Text (Blank IsWord Trimmed integerChars isBlank numeral_integerChars trim)
open TransferDesk.Text.Utf8 (encode encode_append encodeChar_cases mem_encodeChar_iff validUpTo?)

/-! ## Texts in cells -/

/-- A character is a blank byte or has none. -/
theorem blankBytes_cases (c : Char) :
    (∃ b, String.utf8EncodeChar c = [b] ∧ isBlankByte b ∧ isBlank c) ∨
      String.utf8EncodeChar c ≠ [] ∧ ∀ b ∈ String.utf8EncodeChar c, isBlankByte b = false := by
  have hsmall {b : UInt8} (h : isBlankByte b) : b.toNat < 128 ∧ isBlank (Char.ofNat b.toNat) := by
    rcases of_decide_eq_true h with rfl | rfl | rfl | rfl | rfl <;> decide
  by_cases hblank : ∃ b ∈ String.utf8EncodeChar c, isBlankByte b
  · left
    obtain ⟨b, hb, hbyte⟩ := hblank
    obtain ⟨hless, hchar⟩ := hsmall hbyte
    rcases encodeChar_cases c with ⟨-, hone⟩ | ⟨-, hmore⟩
    · rw [hone, List.mem_singleton] at hb
      refine ⟨b, by rw [hone, hb], hbyte, ?_⟩
      have hc := (mem_encodeChar_iff hless (c := c)).1 (by rw [hone, hb]; exact List.mem_cons_self)
      rwa [hc]
    · exact absurd (hmore b hb) (by omega)
  · right
    refine ⟨String.utf8EncodeChar_ne_nil, fun b hb => ?_⟩
    by_contra hbyte
    exact hblank ⟨b, hb, by simpa using hbyte⟩

/-- The bytes of a text without blank bytes at their start are those of the text without some blanks
there. -/
theorem exists_dropWhile_encode (s : List Char) :
    ∃ gap t, s = gap ++ t ∧ Blank gap ∧ (encode s).dropWhile isBlankByte = encode t := by
  -- a blank byte is a character of its own, so nothing stops in the middle of a character
  induction s with
  | nil => exact ⟨[], [], rfl, by simp [Blank], rfl⟩
  | cons c s ih =>
    have hcons : encode (c :: s) = String.utf8EncodeChar c ++ encode s := List.flatMap_cons
    rcases blankBytes_cases c with ⟨b, hc, hb, hblank⟩ | ⟨hne, hno⟩
    · obtain ⟨gap, t, rfl, hgap, ht⟩ := ih
      refine ⟨c :: gap, t, rfl, List.forall_mem_cons.2 ⟨hblank, hgap⟩, ?_⟩
      rw [hcons, hc, List.singleton_append, List.dropWhile_cons_of_pos hb, ht]
    · refine ⟨[], c :: s, rfl, by simp [Blank], ?_⟩
      obtain ⟨b, bs, hbs⟩ := List.exists_cons_of_ne_nil hne
      have hb : isBlankByte b = false := hno b (hbs ▸ List.mem_cons_self)
      rw [hcons, hbs, List.cons_append, List.dropWhile_cons_of_neg (by simp [hb])]

theorem exists_dropWhile_reverse_encode (s : List Char) :
    ∃ t gap, s = t ++ gap ∧ Blank gap ∧
      ((encode s).reverse.dropWhile isBlankByte).reverse = encode t := by
  induction s using List.reverseRecOn with
  | nil => exact ⟨[], [], rfl, by simp [Blank], rfl⟩
  | append_singleton s c ih =>
    have hconcat : encode (s ++ [c]) = encode s ++ String.utf8EncodeChar c := by
      rw [encode_append]
      exact congrArg _ (List.append_nil _)
    rcases blankBytes_cases c with ⟨b, hc, hb, hblank⟩ | ⟨hne, hno⟩
    · obtain ⟨t, gap, rfl, hgap, ht⟩ := ih
      refine ⟨t, gap ++ [c], List.append_assoc _ _ _, ?_, ?_⟩
      · intro d hd
        rcases List.mem_append.1 hd with hd | hd
        · exact hgap d hd
        · rwa [List.mem_singleton.1 hd]
      · rw [hconcat, hc, List.reverse_append, List.reverse_singleton, List.singleton_append,
          List.dropWhile_cons_of_pos hb, ht]
    · refine ⟨s ++ [c], [], (List.append_nil _).symm, by simp [Blank], ?_⟩
      obtain ⟨bs, b, hbs⟩ := (List.eq_nil_or_concat _).resolve_left hne
      have hb : isBlankByte b = false := hno b (by simp [hbs])
      rw [hconcat, hbs, List.concat_eq_append, ← List.append_assoc, List.reverse_append,
        List.reverse_singleton, List.singleton_append, List.dropWhile_cons_of_neg (by simp [hb]),
        List.reverse_cons, List.reverse_reverse]

/-- Trimming the bytes of a text trims the text, of some of its blanks. -/
theorem exists_trimBytes_encode (s : List Char) :
    ∃ front t back, s = front ++ t ++ back ∧ Blank front ∧ Blank back ∧
      trimBytes (encode s) = encode t := by
  obtain ⟨front, u, rfl, hfront, hu⟩ := exists_dropWhile_encode s
  obtain ⟨t, back, rfl, hback, ht⟩ := exists_dropWhile_reverse_encode u
  refine ⟨front, t, back, (List.append_assoc _ _ _).symm, hfront, hback, ?_⟩
  unfold trimBytes
  rw [hu, ht]

theorem fieldText_encode (s : List Char) : fieldText (encode s) = trim s := by
  unfold fieldText
  rw [Text.Utf8.decodeLossy_encode]

/-- A text in a cell is valid, and it is read without the blanks around it. -/
theorem fieldText_trimBytes_encode (s : List Char) :
    validUpTo? (trimBytes (encode s)) = none ∧ fieldText (trimBytes (encode s)) = trim s := by
  obtain ⟨front, t, back, rfl, hfront, hback, ht⟩ := exists_trimBytes_encode s
  rw [ht, fieldText_encode, Text.trim_blanks hfront hback]
  exact ⟨Text.Utf8.validUpTo?_encode t, rfl⟩

/-- The spaces around a bare field make no difference. -/
theorem WrittenField.trim_content (f : WrittenField) : trim f.content = trim f.text := by
  unfold content
  split
  · rfl
  · exact Text.trim_blanks (Text.blank_spaces f.before) (Text.blank_spaces f.after) f.text

/-! ## Cells -/

/-- The text of a value in its cell. -/
def Value.toChars : Value → List Char
  | number n => integerChars n.toInt
  | text s => s.toList

/-- The text of a row in a column. -/
def Row.cell (r : Row) (c : Column) : List Char :=
  (r.value c).toChars

theorem Row.reads_cell (r : Row) (c : Column) : c.Reads (r.cell c) (r.value c) := by
  cases c with
  | accountId => exact ⟨r.accountId, Or.inl (numeral_integerChars _), rfl⟩
  | customerId => exact ⟨r.customerId, Or.inl (numeral_integerChars _), rfl⟩
  | customerName | customerEmail | kind | balance | currency =>
    exact congrArg Value.text String.ofList_toList.symm

theorem Column.ofName?_eq_some_iff {name : List Char} {c : Column} :
    Column.ofName? name = some c ↔ name = c.name.toList := by
  constructor
  · intro h
    unfold Column.ofName? at h
    have hname := List.find?_some h
    exact (of_decide_eq_true hname).symm
  · rintro rfl
    cases c <;> decide

instance : Fintype Column where
  elems := ⟨Column.all, by decide⟩
  complete c := by cases c <;> decide

/-! ## Lines -/

/-- A line has the texts of a row under the names of the columns. Its other fields may be
anything. -/
def WrittenLine.Shows (heads : List WrittenField) (r : Row) (l : WrittenLine) : Prop :=
  List.Forall₂ (fun head f => ∀ c : Column, head.text = c.name.toList → f.text = r.cell c)
    heads l.fields

instance (heads : List WrittenField) (r : Row) (l : WrittenLine) : Decidable (l.Shows heads r) :=
  inferInstanceAs (Decidable (List.Forall₂ _ heads l.fields))

/-- The fields of a header are read as the names of the same columns. -/
def Named (heads : List WrittenField) (names : List (List Char)) : Prop :=
  List.Forall₂ (fun head name => ∀ c, Column.ofName? name = some c ↔ head.text = c.name.toList)
    heads names

section Lines

variable {heads : List WrittenField} {names : List (List Char)} {r : Row} {l : WrittenLine}

/-- As many cells are read for a column as the header has fields with its name, and each of them has
what the row has there. -/
theorem texts_zip (hnames : Named heads names) (htrimmed : ∀ c, Trimmed (r.cell c))
    (hshows : l.Shows heads r) (c : Column) :
    c.texts (names.zip (l.fields.map fun f => trim f.text)) =
      List.replicate ((heads.map WrittenField.text).count c.name.toList) (r.cell c) := by
  obtain ⟨fields, ending, empties⟩ := l
  change List.Forall₂ _ heads fields at hshows
  change c.texts (names.zip (fields.map fun f => trim f.text)) = _
  induction hnames generalizing fields with
  | nil => rfl
  | @cons head name heads names hname _ ih =>
    obtain ⟨f, fields, hf, hfields, rfl⟩ := List.forall₂_cons_left_iff.1 hshows
    rw [List.map_cons, List.zip_cons_cons, List.map_cons]
    -- a field under the name of the column is one cell more, any other makes no difference
    by_cases hhead : head.text = c.name.toList
    · rw [Column.texts_cons_of_eq ((hname c).2 hhead), ih fields hfields, hf c hhead,
        (htrimmed c).trim_eq, hhead, List.count_cons_self, List.replicate_succ]
    · rw [Column.texts_cons_of_ne (mt (hname c).1 hhead), ih fields hfields,
        List.count_cons_of_ne hhead]

/-- A line that shows the row of an account is read as that account. -/
theorem WrittenLine.Shows.holds (hshows : l.Shows heads r) (hnames : Named heads names)
    (honce : ∀ c : Column, (heads.map WrittenField.text).count c.name.toList = 1)
    (htrimmed : ∀ c, Trimmed (r.cell c)) {a : Account} (hconverts : r.Converts a) {record : Record}
    (hrecord : record.fields = l.contents) : record.Holds names a where
  width := by
    rw [hrecord, ← List.Forall₂.length_eq hnames, List.Forall₂.length_eq hshows]
    exact List.length_map _
  encoding := by
    intro field hfield
    rw [hrecord] at hfield
    obtain ⟨f, -, rfl⟩ := List.mem_map.1 hfield
    exact (fieldText_trimBytes_encode f.content).1
  row := by
    have htexts : record.texts = l.fields.map fun f => trim f.text := by
      unfold Record.texts WrittenLine.contents at *
      rw [hrecord, List.map_map]
      refine List.map_congr_left fun f _ => ?_
      exact (fieldText_trimBytes_encode f.content).2.trans f.trim_content
    refine ⟨r, fun c => ⟨r.cell c, ?_, r.reads_cell c⟩, hconverts⟩
    rw [htexts, texts_zip hnames htrimmed hshows, honce c]
    rfl

end Lines

/-! ## Accounts -/

namespace IsUpperCurrency

variable {s : String} (h : IsUpperCurrency s)

include h

theorem isWord : IsWord s.toList where
  nonempty := by
    intro hnil
    have hlength := h.1
    rw [hnil] at hlength
    cases hlength
  solid c hc := by
    obtain ⟨hlow, hhigh⟩ := h.2 c hc
    have hlow : 65 ≤ c.toNat := hlow
    have hhigh : c.toNat ≤ 90 := hhigh
    exact Text.isBlank_of_visible (by omega) (by omega)

theorem isCurrency : IsCurrency s := by
  refine ⟨h.1, ?_⟩
  intro c hc
  exact decide_eq_true (Or.inr (h.2 c hc))

theorem upperCase_eq : upperCase s = s := by
  have hletters : s.toList.map Char.toUpper = s.toList := by
    refine (List.map_congr_left ?_).trans (List.map_id _)
    intro c hc
    have hhigh : c.toNat ≤ 90 := (h.2 c hc).2
    unfold Char.toUpper
    refine dif_neg ?_
    rintro ⟨hlower, -⟩
    have hlower : 97 ≤ c.toNat := hlower
    omega
  unfold upperCase
  rw [hletters, String.ofList_toList]

end IsUpperCurrency

/-- The row of an account. Its balance is printed with all its places. -/
def Row.ofAccount (a : Account) : Row where
  accountId := a.id
  customerId := a.customerId
  customerName := a.customerName
  customerEmail := a.customerEmail
  kind := a.kind
  balance := a.balance.toText
  currency := a.currency

theorem Row.balance_ofAccount (a : Account) : (ofAccount a).balance.toList = a.balance.toChars :=
  String.toList_ofList

section Presentable

variable {a : Account} (h : a.Presentable)

include h

/-- No cell of an account begins or ends with a blank. -/
theorem trimmed_cell (c : Column) : Trimmed ((Row.ofAccount a).cell c) := by
  cases c with
  | accountId => exact (numeral_integerChars a.id.toInt).isWord.trimmed
  | customerId => exact (numeral_integerChars a.customerId.toInt).isWord.trimmed
  | customerName => exact h.customerName
  | customerEmail => exact h.customerEmail
  | kind => exact h.kind
  | balance =>
    change Trimmed (Row.ofAccount a).balance.toList
    rw [Row.balance_ofAccount]
    exact a.balance.isWord_toChars.trimmed
  | currency => exact h.currency.isWord.trimmed

/-- The row of an account is made that account. -/
theorem converts_ofAccount : (Row.ofAccount a).Converts a.withoutNegativeZero where
  balance := by
    have hread := Decimal.ofChars?_of_readPlain a.balance.readPlain_toChars_eq
    rw [Row.balance_ofAccount]
    exact Decimal.ofChars?_eq_some_iff.1 hread
  cents := by
    obtain ⟨n, hn⟩ := h.cents
    exact ⟨n, a.balance.value_withoutNegativeZero.trans hn⟩
  letters := h.currency.isCurrency
  account := by
    change a.withoutNegativeZero = { a.withoutNegativeZero with currency := upperCase a.currency }
    rw [h.currency.upperCase_eq]
    rfl

end Presentable

/-- Lines that show accounts are read as these accounts, wherever their records stand. -/
theorem holds_of_shows {heads : List WrittenField} {names : List (List Char)}
    (hnames : Named heads names)
    (honce : ∀ c : Column, (heads.map WrittenField.text).count c.name.toList = 1)
    {as : List Account} (has : ∀ a ∈ as, a.Presentable) {lines : List WrittenLine}
    (hshows : List.Forall₂ (fun a l => l.Shows heads (.ofAccount a)) as lines) {rows : List Record}
    (hrows : rows.map Record.fields = lines.map WrittenLine.contents) :
    List.Forall₂ (Record.Holds names) rows (as.map Account.withoutNegativeZero) := by
  induction hshows generalizing rows with
  | nil =>
    rw [List.map_eq_nil_iff.1 hrows]
    exact .nil
  | cons hl _ ih =>
    obtain ⟨ha, has⟩ := List.forall_mem_cons.1 has
    obtain ⟨record, rows, rfl, hrecord, hrows⟩ := List.map_eq_cons_iff.1 hrows
    exact .cons (hl.holds hnames honce (trimmed_cell ha) (converts_ofAccount ha) hrecord)
      (ih has hrows)

end Sheet

end TransferDesk
