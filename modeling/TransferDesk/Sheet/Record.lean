/-!
# Records of comma-separated values

A sheet is a sequence of records, and a record a sequence of fields between commas. A record ends
at a line feed, at a carriage return or at the end of the sheet. Line breaks in front of a record
are skipped, so a blank line is no record.

A field that starts with a quote is quoted: up to the closing quote, commas and line breaks are
part of it and two quotes stand for one. Whatever stands between the closing quote and the end of
the field is part of the field as it is. In a field that does not start with a quote, quotes are
ordinary.

Every record comes with the place where the one before it ended, so line breaks that were skipped
are behind that place.
-/

namespace TransferDesk.Sheet

/-- What a field ends with. -/
inductive FieldEnd where
  | comma
  | lineBreak
  | endOfSheet
deriving DecidableEq, Repr

/-- Whether a byte ends a record. -/
def isLineBreak (b : UInt8) : Bool :=
  b = 10 ∨ b = 13

/-- The comma between two fields. -/
def comma : UInt8 := 44

/-- The mark around a quoted field. -/
def quote : UInt8 := 34

/-- A field, what it ended with and what follows it. -/
structure FieldRead where
  field : List UInt8
  ending : FieldEnd
  rest : List UInt8
deriving DecidableEq, Repr

/-- The same with one more byte at the start of the field. -/
def FieldRead.push (b : UInt8) (r : FieldRead) : FieldRead :=
  { r with field := b :: r.field }

/-- Reads a field outside of quotes. -/
def readBare : List UInt8 → FieldRead
  | [] => ⟨[], .endOfSheet, []⟩
  | b :: bs =>
    if b = comma then ⟨[], .comma, bs⟩
    else if isLineBreak b then ⟨[], .lineBreak, bs⟩
    else (readBare bs).push b

/-- Reads a field inside of quotes. -/
def readQuoted : List UInt8 → FieldRead
  | [] => ⟨[], .endOfSheet, []⟩
  | [b] => if b = quote then ⟨[], .endOfSheet, []⟩ else ⟨[b], .endOfSheet, []⟩
  | b :: c :: bs =>
    if b = quote then
      if c = quote then (readQuoted bs).push quote else readBare (c :: bs)
    else (readQuoted (c :: bs)).push b

/-- Reads a field. -/
def readField : List UInt8 → FieldRead
  | [] => ⟨[], .endOfSheet, []⟩
  | b :: bs => if b = quote then readQuoted bs else readBare (b :: bs)

/-! ## Every field uses input up -/

theorem length_rest_readBare (bytes : List UInt8) :
    (readBare bytes).rest.length ≤ bytes.length ∧
      ((readBare bytes).rest.length < bytes.length ∨ bytes = [] ∧
        (readBare bytes).ending = .endOfSheet) := by
  induction bytes with
  | nil => simp [readBare]
  | cons b bs ih =>
    rw [readBare]
    split
    · simp
    · split
      · simp
      · simp only [FieldRead.push, List.length_cons]
        omega

theorem length_rest_readQuoted (bytes : List UInt8) :
    (readQuoted bytes).rest.length ≤ bytes.length := by
  fun_induction readQuoted bytes with
  | case1 => simp
  | case2 => simp
  | case3 => simp
  | case4 bs ih => simp only [FieldRead.push, List.length_cons]; omega
  | case5 c bs =>
    have := (length_rest_readBare (c :: bs)).1
    simp only [List.length_cons] at *
    omega
  | case6 b c bs _ ih => simp only [FieldRead.push, List.length_cons] at *; omega

theorem length_rest_readField {bytes : List UInt8} (h : bytes ≠ []) :
    (readField bytes).rest.length < bytes.length := by
  cases bytes with
  | nil => exact absurd rfl h
  | cons b bs =>
    rw [readField]
    split
    · have := length_rest_readQuoted bs
      simp only [List.length_cons]
      omega
    · rcases (length_rest_readBare (b :: bs)).2 with h | ⟨h, -⟩
      · exact h
      · simp at h

/-! ## Records -/

/-- Reads the fields of a record. The second part is what follows it. -/
def readFields (bytes : List UInt8) : List (List UInt8) × List UInt8 :=
  match bytes with
  | [] => ([[]], [])
  | b :: bs =>
    let read := readField (b :: bs)
    match read.ending with
    | .comma => let (fields, rest) := readFields read.rest; (read.field :: fields, rest)
    | .lineBreak => ([read.field], read.rest)
    | .endOfSheet => ([read.field], read.rest)
termination_by bytes.length
decreasing_by exact length_rest_readField (by simp)

theorem length_rest_readFields (bytes : List UInt8) :
    (readFields bytes).2.length ≤ bytes.length ∧
      (bytes ≠ [] → (readFields bytes).2.length < bytes.length) := by
  fun_induction readFields bytes with
  | case1 => simp
  | case2 b bs read _ fields rest heq ih =>
    have : read.rest.length < (b :: bs).length := length_rest_readField (by simp)
    simp only [heq] at ih
    simp only [ne_eq, reduceCtorEq, not_false_eq_true, forall_const]
    omega
  | case3 b bs read _ =>
    have : read.rest.length < (b :: bs).length := length_rest_readField (by simp)
    exact ⟨Nat.le_of_lt this, fun _ => this⟩
  | case4 b bs read _ =>
    have : read.rest.length < (b :: bs).length := length_rest_readField (by simp)
    exact ⟨Nat.le_of_lt this, fun _ => this⟩

/-- A place in a sheet. -/
structure Place where
  /-- How many records come before. -/
  record : Nat
  /-- One more than the number of line feeds before. -/
  line : Nat
  /-- How many bytes come before. -/
  byte : Nat
deriving DecidableEq, Repr

/-- A record and the place where the one before it ended. -/
structure Record where
  place : Place
  fields : List (List UInt8)
deriving DecidableEq, Repr

/-- The place in a sheet before its last bytes. -/
def placeBefore (sheet rest : List UInt8) (record : Nat) : Place where
  record
  line := 1 + sheet.count 10 - rest.count 10
  byte := sheet.length - rest.length

/-- The records in the last bytes of a sheet, of which the first has the given number. -/
def recordsFrom (sheet : List UInt8) (number : Nat) (bytes : List UInt8) : List Record :=
  match _h : bytes.dropWhile isLineBreak with
  | [] => []
  | b :: bs =>
    ⟨placeBefore sheet bytes number, (readFields (b :: bs)).1⟩ ::
      recordsFrom sheet (number + 1) (readFields (b :: bs)).2
termination_by bytes.length
decreasing_by
  have hd := (List.dropWhile_sublist isLineBreak (l := bytes)).length_le
  have := (length_rest_readFields (b :: bs)).2 (by simp)
  rw [_h] at hd
  omega

/-- The bytes without a byte order mark at their start. -/
def dropByteOrderMark : List UInt8 → List UInt8
  | 0xEF :: 0xBB :: 0xBF :: bytes => bytes
  | bytes => bytes

/-- The place where a sheet starts. It is before a byte order mark. -/
def Place.start : Place :=
  ⟨0, 1, 0⟩

/-- The records of a sheet. A byte order mark is no part of the first one, but it counts among the
bytes. -/
def records (sheet : List UInt8) : List Record :=
  match recordsFrom sheet 0 (dropByteOrderMark sheet) with
  | [] => []
  | first :: rest => { first with place := .start } :: rest

end TransferDesk.Sheet
