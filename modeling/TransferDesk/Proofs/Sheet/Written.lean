import TransferDesk.Proofs.Request.Wire
import TransferDesk.Sheet.Loader
/-!
# Writing a sheet

A sheet can be written line by line. A field stands in quotes if there is something in it that would
end it or that is a quote, and otherwise bare, with any number of spaces around it. Empty lines may
stand behind every line.

What is written is read back: a field as what stands in it (`readField_toChars`), a line as the
record of its fields (`readFields_chars`), and a sheet as the records of its lines
(`fields_records`), in any mixture of quotes and line endings. Only a byte order mark at the very
start of a sheet is lost (`dropByteOrderMark_encode`).
-/

namespace TransferDesk.Sheet

open TransferDesk.Text.Utf8 (encode encode_append mem_encode_iff)

/-! ## Fields and lines -/

/-- A text that would not be read as it is outside of quotes. -/
def NeedsQuotes (s : List Char) : Prop :=
  ∃ c ∈ s, c = ',' ∨ c = '"' ∨ c = '\r' ∨ c = '\n'

theorem needsQuotes_iff_any {s : List Char} :
    (s.any fun c => c = ',' ∨ c = '"' ∨ c = '\r' ∨ c = '\n') ↔ NeedsQuotes s := by
  simp [NeedsQuotes]

instance (s : List Char) : Decidable (NeedsQuotes s) :=
  decidable_of_iff _ needsQuotes_iff_any

/-- The text with every quote twice. -/
def doubleQuotes (s : List Char) : List Char :=
  s.flatMap fun c => if c = '"' then ['"', '"'] else [c]

/-- A field that is to be written. -/
structure WrittenField where
  text : List Char
  /-- How many spaces stand in front of it, if it is bare. -/
  before : Nat := 0
  /-- How many spaces stand behind it, if it is bare. -/
  after : Nat := 0
deriving DecidableEq, Repr

namespace WrittenField

/-- What stands in a field: its text, and around a bare one its spaces. -/
def content (f : WrittenField) : List Char :=
  if NeedsQuotes f.text then f.text
  else List.replicate f.before ' ' ++ f.text ++ List.replicate f.after ' '

/-- The field as it is written. -/
def toChars (f : WrittenField) : List Char :=
  if NeedsQuotes f.text then '"' :: (doubleQuotes f.text ++ ['"']) else f.content

variable {f : WrittenField}

theorem content_of_needsQuotes (h : NeedsQuotes f.text) : f.content = f.text :=
  if_pos h

theorem content_of_bare (h : ¬ NeedsQuotes f.text) :
    f.content = List.replicate f.before ' ' ++ f.text ++ List.replicate f.after ' ' :=
  if_neg h

theorem toChars_of_needsQuotes (h : NeedsQuotes f.text) :
    f.toChars = '"' :: (doubleQuotes f.text ++ ['"']) :=
  if_pos h

theorem toChars_of_bare (h : ¬ NeedsQuotes f.text) : f.toChars = f.content :=
  if_neg h

end WrittenField

/-- A line feed, with a carriage return in front of it or without. -/
abbrev LineEnding := { breaks : List Char // breaks ∈ lineEndings }

/-- A line that is to be written, with the empty lines behind it. -/
structure WrittenLine where
  fields : List WrittenField
  ending : LineEnding
  empties : List LineEnding := []
deriving DecidableEq, Repr

namespace WrittenLine

/-- The fields of a line with commas between them. -/
def chars (l : WrittenLine) : List Char :=
  [','].intercalate (l.fields.map WrittenField.toChars)

/-- The ending of a line and those of the empty lines behind it. -/
def breaks (l : WrittenLine) : List Char :=
  l.ending.1 ++ l.empties.flatMap Subtype.val

/-- The line as it is written. -/
def toChars (l : WrittenLine) : List Char :=
  l.chars ++ l.breaks

/-- The fields of a line as they are read. -/
def contents (l : WrittenLine) : List (List UInt8) :=
  l.fields.map fun f => encode f.content

end WrittenLine

/-! ## Reading fields -/

/-- What a field ends with at a comma or at a line break. -/
def endingAt (b : UInt8) : FieldEnd :=
  if b = comma then .comma else .lineBreak

section Fields

variable {b : UInt8} (hb : b = comma ∨ isLineBreak b) (rest : List UInt8)

include hb

theorem readBare_end : readBare (b :: rest) = ⟨[], endingAt b, rest⟩ := by
  unfold endingAt
  rw [readBare]
  split
  · rfl
  · rename_i hcomma
    rw [if_pos (hb.resolve_left hcomma)]

/-- Bytes that do not end a field are read as they are. -/
theorem readBare_append {bytes : List UInt8} (h : ∀ c ∈ bytes, c ≠ comma ∧ isLineBreak c = false) :
    readBare (bytes ++ b :: rest) = ⟨bytes, endingAt b, rest⟩ := by
  induction bytes with
  | nil => exact readBare_end hb rest
  | cons c bytes ih =>
    obtain ⟨⟨hcomma, hbreak⟩, hbytes⟩ := List.forall_mem_cons.1 h
    rw [List.cons_append, readBare, if_neg hcomma, hbreak, if_neg Bool.false_ne_true, ih hbytes]
    rfl

omit hb in
/-- Inside of quotes bytes that are no quotes are read as they are. -/
theorem readQuoted_append {bytes : List UInt8} (h : quote ∉ bytes) (hrest : rest ≠ []) :
    readQuoted (bytes ++ rest) =
      { readQuoted rest with field := bytes ++ (readQuoted rest).field } := by
  induction bytes with
  | nil => rfl
  | cons c bytes ih =>
    obtain ⟨hc, hbytes⟩ := List.ne_and_not_mem_of_not_mem_cons h
    obtain ⟨d, more, hmore⟩ :=
      List.exists_cons_of_ne_nil (List.append_ne_nil_of_right_ne_nil bytes hrest)
    rw [List.cons_append, hmore, readQuoted, if_neg (Ne.symm hc), ← hmore, ih hbytes]
    rfl

/-- A text in quotes is read back, whatever is in it. -/
theorem readQuoted_doubleQuotes (s : List Char) :
    readQuoted (encode (doubleQuotes s) ++ quote :: b :: rest) = ⟨encode s, endingAt b, rest⟩ := by
  induction s with
  | nil =>
    have hquote : b ≠ quote := by
      rintro rfl
      exact absurd hb (by decide)
    -- the closing quote has no quote behind it, so what follows is read as outside of quotes
    change readQuoted (quote :: b :: rest) = _
    rw [readQuoted, if_pos rfl, if_neg hquote]
    exact readBare_end hb rest
  | cons c s ih =>
    have hcons : encode (c :: s) = encode [c] ++ encode s := encode_append [c] s
    by_cases hc : c = '"'
    · subst hc
      have hdouble : encode (doubleQuotes ('"' :: s)) = quote :: quote :: encode (doubleQuotes s) :=
        rfl
      rw [hdouble, List.cons_append, List.cons_append, readQuoted, if_pos rfl, if_pos rfl, ih]
      rfl
    · have hdouble : encode (doubleQuotes (c :: s)) = encode [c] ++ encode (doubleQuotes s) := by
        unfold doubleQuotes
        rw [List.flatMap_cons, if_neg hc, encode_append]
      have hnone : quote ∉ encode [c] := by
        rw [mem_encode_iff (by decide)]
        exact fun h => hc (List.mem_singleton.1 h).symm
      rw [hdouble, List.append_assoc, readQuoted_append _ hnone (by simp), ih, hcons]

omit hb in
/-- A bare field has no byte that would end it and no quote. -/
theorem WrittenField.bare_bytes {f : WrittenField} (h : ¬ NeedsQuotes f.text) :
    (∀ c ∈ encode f.content, c ≠ comma ∧ isLineBreak c = false) ∧ quote ∉ encode f.content := by
  have hbare {c : Char} (hc : c ∈ f.content) : c ≠ ',' ∧ c ≠ '"' ∧ c ≠ '\r' ∧ c ≠ '\n' := by
    rw [WrittenField.content_of_bare h, List.mem_append, List.mem_append] at hc
    have hspace {n : Nat} (hc : c ∈ List.replicate n ' ') :
        c ≠ ',' ∧ c ≠ '"' ∧ c ≠ '\r' ∧ c ≠ '\n' := by
      rw [List.eq_of_mem_replicate hc]
      decide
    rcases hc with (hc | hc) | hc
    · exact hspace hc
    · by_contra hmark
      refine h ⟨c, hc, ?_⟩
      tauto
    · exact hspace hc
  have hno {c : UInt8} (hsmall : c.toNat < 128) (hc : c ∈ encode f.content) :=
    hbare ((mem_encode_iff hsmall).1 hc)
  refine ⟨fun c hc => ⟨?_, ?_⟩, ?_⟩
  · rintro rfl
    exact (hno (by decide) hc).1 rfl
  · by_contra hbreak
    rcases of_decide_eq_true (Bool.not_eq_false _ ▸ hbreak) with rfl | rfl
    · exact (hno (by decide) hc).2.2.2 rfl
    · exact (hno (by decide) hc).2.2.1 rfl
  · intro hc
    exact (hno (by decide) hc).2.1 rfl

/-- A field is read as what stands in it. -/
theorem readField_toChars (f : WrittenField) :
    readField (encode f.toChars ++ b :: rest) = ⟨encode f.content, endingAt b, rest⟩ := by
  by_cases hquotes : NeedsQuotes f.text
  · have hquoted : encode ('"' :: (doubleQuotes f.text ++ ['"'])) ++ b :: rest =
        quote :: (encode (doubleQuotes f.text) ++ quote :: b :: rest) := by
      have hcons (s : List Char) : encode ('"' :: s) = quote :: encode s := rfl
      rw [hcons, encode_append, List.cons_append, List.append_assoc]
      rfl
    rw [WrittenField.toChars_of_needsQuotes hquotes, WrittenField.content_of_needsQuotes hquotes,
      hquoted, readField, if_pos rfl, readQuoted_doubleQuotes hb]
  · -- a bare field does not start with a quote, and neither does what ends it
    obtain ⟨hbytes, hquote⟩ := WrittenField.bare_bytes hquotes
    have hread := readBare_append hb rest hbytes
    rw [WrittenField.toChars_of_bare hquotes]
    cases hcontent : encode f.content with
    | nil =>
      rw [hcontent, List.nil_append] at hread
      have hne : b ≠ quote := by
        rintro rfl
        exact absurd hb (by decide)
      rw [List.nil_append, readField, if_neg hne, hread]
    | cons c bytes =>
      rw [hcontent, List.cons_append] at hread
      have hne : c ≠ quote := by
        rintro rfl
        exact hquote (hcontent ▸ List.mem_cons_self)
      rw [List.cons_append, readField, if_neg hne, hread]

end Fields

/-! ## Reading lines -/

theorem readFields_of_comma {bytes field rest : List UInt8} (hne : bytes ≠ [])
    (h : readField bytes = ⟨field, .comma, rest⟩) :
    readFields bytes = (field :: (readFields rest).1, (readFields rest).2) := by
  obtain ⟨b, bs, rfl⟩ := List.exists_cons_of_ne_nil hne
  rw [readFields, h]

theorem readFields_of_lineBreak {bytes field rest : List UInt8} (hne : bytes ≠ [])
    (h : readField bytes = ⟨field, .lineBreak, rest⟩) : readFields bytes = ([field], rest) := by
  obtain ⟨b, bs, rfl⟩ := List.exists_cons_of_ne_nil hne
  rw [readFields, h]

theorem WrittenLine.chars_cons_cons {l : WrittenLine} {f g : WrittenField} {fs : List WrittenField}
    (h : l.fields = f :: g :: fs) :
    l.chars = f.toChars ++ ',' :: { l with fields := g :: fs }.chars := by
  unfold WrittenLine.chars
  rw [h, List.map_cons, List.map_cons, List.intercalate_cons_cons, List.append_assoc]
  rfl

theorem WrittenLine.encode_chars_cons_cons {l : WrittenLine} {f g : WrittenField}
    {fs : List WrittenField} (h : l.fields = f :: g :: fs) :
    encode l.chars = encode f.toChars ++ comma :: encode { l with fields := g :: fs }.chars := by
  rw [WrittenLine.chars_cons_cons h, encode_append]
  rfl

/-- The fields of a line are read, up to the line break behind them. -/
theorem readFields_chars {l : WrittenLine} (hne : l.fields ≠ []) {b : UInt8} (hb : isLineBreak b)
    (rest : List UInt8) : readFields (encode l.chars ++ b :: rest) = (l.contents, rest) := by
  obtain ⟨fields, ending, empties⟩ := l
  induction fields with
  | nil => exact absurd rfl hne
  | cons f fields ih =>
    cases fields with
    | nil =>
      have hread := readField_toChars (Or.inr hb) rest f
      have hending : endingAt b = .lineBreak := by
        refine if_neg ?_
        rintro rfl
        cases hb
      rw [hending] at hread
      have hchars : WrittenLine.chars ⟨[f], ending, empties⟩ = f.toChars :=
        List.intercalate_singleton
      rw [hchars]
      exact readFields_of_lineBreak (by simp) hread
    | cons g fs =>
      have hread := readField_toChars (Or.inl rfl)
        (encode (WrittenLine.chars ⟨g :: fs, ending, empties⟩) ++ b :: rest) f
      rw [WrittenLine.encode_chars_cons_cons rfl, List.append_assoc, List.cons_append,
        readFields_of_comma (by simp) hread, ih (List.cons_ne_nil _ _)]
      rfl

theorem isLineBreak_of_mem_encode {s : List Char} (h : ∀ c ∈ s, c = '\n' ∨ c = '\r') {b : UInt8}
    (hb : b ∈ encode s) : isLineBreak b := by
  obtain ⟨c, hc, hb⟩ := List.mem_flatMap.1 hb
  rcases h c hc with rfl | rfl
  · rw [List.mem_singleton.1 hb]
    rfl
  · rw [List.mem_singleton.1 hb]
    rfl

/-- Behind the fields of a line there are line breaks only, one at least. -/
theorem WrittenLine.exists_breaks (l : WrittenLine) :
    ∃ b gap, encode l.breaks = b :: gap ∧ isLineBreak b ∧ ∀ c ∈ gap, isLineBreak c := by
  have hending (e : LineEnding) : ∀ c ∈ e.1, c = '\n' ∨ c = '\r' := by
    rcases mem_lineEndings_iff.1 e.2 with he | he <;> simp [he]
  have hall : ∀ b ∈ encode l.breaks, isLineBreak b := by
    intro b hb
    refine isLineBreak_of_mem_encode ?_ hb
    intro c hc
    rcases List.mem_append.1 hc with hc | hc
    · exact hending l.ending c hc
    · obtain ⟨e, -, hc⟩ := List.mem_flatMap.1 hc
      exact hending e c hc
  have hne : encode l.breaks ≠ [] := by
    unfold WrittenLine.breaks
    rw [encode_append]
    refine List.append_ne_nil_of_left_ne_nil ?_ _
    rcases mem_lineEndings_iff.1 l.ending.2 with he | he <;> rw [he] <;> exact List.cons_ne_nil _ _
  obtain ⟨b, gap, hbreaks⟩ := List.exists_cons_of_ne_nil hne
  rw [hbreaks, List.forall_mem_cons] at hall
  exact ⟨b, gap, hbreaks, hall⟩

/-- No line break is skipped at the start of a line with more than one field. A first field that is
empty has a comma behind it. -/
theorem WrittenLine.start {l : WrittenLine} (h : 2 ≤ l.fields.length) (rest : List UInt8) :
    ∃ b bs, encode l.chars ++ rest = b :: bs ∧ isLineBreak b = false := by
  obtain ⟨fields, ending, empties⟩ := l
  rcases fields with _ | ⟨f, _ | ⟨g, fs⟩⟩
  · exact absurd h (Nat.not_succ_le_zero 1)
  · exact absurd h (Nat.not_succ_le_self 1)
  rw [WrittenLine.encode_chars_cons_cons rfl, List.append_assoc]
  by_cases hquotes : NeedsQuotes f.text
  · rw [WrittenField.toChars_of_needsQuotes hquotes]
    exact ⟨quote, _, rfl, rfl⟩
  · rw [WrittenField.toChars_of_bare hquotes]
    have hbytes := (WrittenField.bare_bytes hquotes).1
    cases hcontent : encode f.content with
    | nil => exact ⟨comma, _, rfl, rfl⟩
    | cons b bs =>
      rw [hcontent] at hbytes
      exact ⟨b, _, rfl, (hbytes b List.mem_cons_self).2⟩

/-! ## Reading sheets -/

theorem recordsFrom_of_nil {bytes : List UInt8} (h : bytes.dropWhile isLineBreak = [])
    (sheet : List UInt8) (number : Nat) : recordsFrom sheet number bytes = [] := by
  rw [recordsFrom]
  split
  · rfl
  · rename_i hcons
    rw [h] at hcons
    cases hcons

theorem recordsFrom_of_cons {bytes bs : List UInt8} {b : UInt8}
    (h : bytes.dropWhile isLineBreak = b :: bs) (sheet : List UInt8) (number : Nat) :
    recordsFrom sheet number bytes =
      ⟨placeBefore sheet bytes number, (readFields (b :: bs)).1⟩ ::
        recordsFrom sheet (number + 1) (readFields (b :: bs)).2 := by
  rw [recordsFrom]
  split
  · rename_i hnil
    rw [h] at hnil
    cases hnil
  · rename_i hcons
    rw [h] at hcons
    obtain ⟨rfl, rfl⟩ := List.cons.inj hcons
    rfl

/-- Lines are read as their records. Line breaks in front of them, which are those of empty lines or
what is left of the ending of the line before, are skipped. -/
theorem fields_recordsFrom {lines : List WrittenLine} (hwide : ∀ l ∈ lines, 2 ≤ l.fields.length)
    {gap : List UInt8} (hgap : ∀ b ∈ gap, isLineBreak b) (sheet : List UInt8) (number : Nat) :
    (recordsFrom sheet number (gap ++ encode (lines.flatMap WrittenLine.toChars))).map Record.fields
      =
      lines.map WrittenLine.contents := by
  induction lines generalizing gap number with
  | nil =>
    have hnil : (gap ++ encode ([].flatMap WrittenLine.toChars)).dropWhile isLineBreak = [] := by
      rw [List.dropWhile_append_of_pos hgap]
      rfl
    rw [recordsFrom_of_nil hnil]
    rfl
  | cons l lines ih =>
    obtain ⟨hl, hlines⟩ := List.forall_mem_cons.1 hwide
    -- the first line break ends the record, the others stand in front of the next one
    obtain ⟨b, more, hbreaks, hb, hmore⟩ := l.exists_breaks
    have hbytes : encode ((l :: lines).flatMap WrittenLine.toChars) =
        encode l.chars ++ b :: (more ++ encode (lines.flatMap WrittenLine.toChars)) := by
      unfold WrittenLine.toChars
      rw [List.flatMap_cons, encode_append, encode_append, hbreaks, List.append_assoc,
        List.cons_append]
    obtain ⟨c, cs, hstart, hc⟩ :=
      l.start hl (b :: (more ++ encode (lines.flatMap WrittenLine.toChars)))
    have hdrop : (gap ++ encode ((l :: lines).flatMap WrittenLine.toChars)).dropWhile isLineBreak =
        c :: cs := by
      rw [List.dropWhile_append_of_pos hgap, hbytes, hstart,
        List.dropWhile_cons_of_neg (by simp [hc])]
    have hne : l.fields ≠ [] := by
      intro hnil
      rw [hnil] at hl
      cases hl
    have hread : readFields (c :: cs) =
        (l.contents, more ++ encode (lines.flatMap WrittenLine.toChars)) := by
      rw [← hstart]
      exact readFields_chars hne hb _
    rw [recordsFrom_of_cons hdrop, List.map_cons, hread, ih hlines hmore]
    rfl

/-- The records of a sheet have the fields that are behind a byte order mark. -/
theorem fields_records (sheet : List UInt8) :
    (records sheet).map Record.fields =
      (recordsFrom sheet 0 (dropByteOrderMark sheet)).map Record.fields := by
  unfold records
  cases recordsFrom sheet 0 (dropByteOrderMark sheet) <;> rfl

/-- The bytes of a text are no byte order mark unless the text starts with one. -/
theorem dropByteOrderMark_encode {s : List Char} (h : s.head? ≠ some '\uFEFF') :
    dropByteOrderMark (encode s) = encode s := by
  unfold dropByteOrderMark
  split
  · -- three bytes of a mark are read as one character, so it is the first of the text
    rename_i bytes hmark
    refine absurd ?_ h
    have hdecode := Text.Utf8.decode_encode s
    rw [hmark] at hdecode
    have hfirst : Text.Utf8.decode (0xEF :: 0xBB :: 0xBF :: bytes) =
        some '\uFEFF' :: Text.Utf8.decodeFrom none bytes :=
      Text.Utf8.decodeFrom_char '\uFEFF' bytes
    rw [hfirst] at hdecode
    obtain ⟨c, rest, hs, hc, -⟩ := List.map_eq_cons_iff.1 hdecode.symm
    rw [hs, List.head?_cons, hc]
  · rfl

end TransferDesk.Sheet
