import TransferDesk.Proofs.Sheet.Accounts
/-!
# The line of a fault

A sheet is cut at its records: in front of each of them stand line breaks that are skipped, and
`recordStarts` has what is left of the sheet from the first byte of each record on.

The place that comes with a record is where the record in front of it ended (`placed_recordsFrom`).
So a fault names the line of its row if no line feed is skipped between the two, and otherwise an
earlier one, by as many lines as line feeds are skipped (`fault_names_end_of_row_before`). Where
lines end with a carriage return and a line feed, the row in front ends at the carriage return and
every fault is a line early (`second_line_is_named_first`).
-/

namespace TransferDesk.Sheet

/-! ## What a record takes -/

/-- What is read of a field ends with what ends the field, or with the sheet. -/
def FieldRead.Took (r : FieldRead) (bytes : List UInt8) : Prop :=
  ∃ taken, bytes = taken ++ r.rest ∧
    match r.ending with
    | .comma => True
    | .lineBreak => ∃ b, taken.getLast? = some b ∧ isLineBreak b
    | .endOfSheet => r.rest = []

/-- One more byte in front does not change the end. -/
theorem FieldRead.Took.cons {r : FieldRead} {bytes : List UInt8} (h : r.Took bytes) (b : UInt8)
    {r' : FieldRead} (hending : r'.ending = r.ending) (hrest : r'.rest = r.rest) :
    r'.Took (b :: bytes) := by
  obtain ⟨taken, rfl, hend⟩ := h
  refine ⟨b :: taken, by rw [hrest, List.cons_append], ?_⟩
  rw [hending, hrest]
  revert hend
  cases r.ending with
  | comma => exact id
  | endOfSheet => exact id
  | lineBreak =>
    rintro ⟨last, hlast, hbreak⟩
    exact ⟨last, by rw [List.getLast?_cons, hlast, Option.getD_some], hbreak⟩

theorem took_readBare (bytes : List UInt8) : (readBare bytes).Took bytes := by
  induction bytes with
  | nil => exact ⟨[], rfl, rfl⟩
  | cons b bs ih =>
    rw [readBare]
    split
    · exact ⟨[b], rfl, trivial⟩
    split
    · exact ⟨[b], rfl, b, rfl, ‹_›⟩
    · exact ih.cons b rfl rfl

theorem took_readQuoted (bytes : List UInt8) : (readQuoted bytes).Took bytes := by
  fun_induction readQuoted bytes with
  | case1 => exact ⟨[], rfl, rfl⟩
  | case2 => exact ⟨_, (List.append_nil _).symm, rfl⟩
  | case3 => exact ⟨_, (List.append_nil _).symm, rfl⟩
  | case4 bs ih => exact (ih.cons quote rfl rfl).cons quote rfl rfl
  | case5 c bs => exact (took_readBare (c :: bs)).cons quote rfl rfl
  | case6 b c bs _ ih => exact ih.cons b rfl rfl

theorem took_readField (bytes : List UInt8) : (readField bytes).Took bytes := by
  cases bytes with
  | nil => exact ⟨[], rfl, rfl⟩
  | cons b bs =>
    rw [readField]
    split
    · exact (took_readQuoted bs).cons b rfl rfl
    · exact took_readBare (b :: bs)

/-- A record ends with a line break, or with the sheet. -/
theorem exists_taken_readFields (bytes : List UInt8) :
    ∃ taken, bytes = taken ++ (readFields bytes).2 ∧
      ((readFields bytes).2 = [] ∨ ∃ b, taken.getLast? = some b ∧ isLineBreak b) := by
  fun_induction readFields bytes with
  | case1 => exact ⟨[], rfl, Or.inl rfl⟩
  | case2 b bs read hcomma fields rest heq ih =>
    obtain ⟨first, hfirst, -⟩ := took_readField (b :: bs)
    obtain ⟨more, hmore, hend⟩ := ih
    simp only [heq] at hmore hend
    refine ⟨first ++ more, ?_, ?_⟩
    · rw [List.append_assoc, ← hmore]
      exact hfirst
    · rcases hend with hnil | ⟨last, hlast, hbreak⟩
      · exact Or.inl hnil
      · exact Or.inr ⟨last, by rw [List.getLast?_append, hlast, Option.some_or], hbreak⟩
  | case3 b bs read hbreak =>
    obtain ⟨taken, htaken, hend⟩ := took_readField (b :: bs)
    have hending : (readField (b :: bs)).ending = .lineBreak := hbreak
    rw [hending] at hend
    exact ⟨taken, htaken, Or.inr hend⟩
  | case4 b bs read hend =>
    obtain ⟨taken, htaken, hrest⟩ := took_readField (b :: bs)
    have hending : (readField (b :: bs)).ending = .endOfSheet := hend
    rw [hending] at hrest
    exact ⟨taken, htaken, Or.inl hrest⟩

/-! ## Where records stand -/

/-- What is left of some bytes from the first byte of each of their records on. -/
def starts (bytes : List UInt8) : List (List UInt8) :=
  match _h : bytes.dropWhile isLineBreak with
  | [] => []
  | b :: bs => (b :: bs) :: starts (readFields (b :: bs)).2
termination_by bytes.length
decreasing_by
  have hd := (List.dropWhile_sublist isLineBreak (l := bytes)).length_le
  have := (length_rest_readFields (b :: bs)).2 (by simp)
  rw [_h] at hd
  omega

theorem starts_of_cons {bytes bs : List UInt8} {b : UInt8}
    (h : bytes.dropWhile isLineBreak = b :: bs) :
    starts bytes = (b :: bs) :: starts (readFields (b :: bs)).2 := by
  rw [starts]
  split
  · rename_i hnil
    rw [h] at hnil
    cases hnil
  · rename_i hcons
    rw [h] at hcons
    obtain ⟨rfl, rfl⟩ := List.cons.inj hcons
    rfl

/-- What is left of a sheet from the first byte of each of its records on. The first of them is the
header. -/
def recordStarts (sheet : List UInt8) : List (List UInt8) :=
  starts (dropByteOrderMark sheet)

/-- The line on which something stands behind the given bytes: one more than there are line feeds in
them. -/
def lineBehind (bytes : List UInt8) : Nat :=
  1 + bytes.count 10

theorem line_placeBefore {front bytes : List UInt8} (number : Nat) :
    (placeBefore (front ++ bytes) bytes number).line = lineBehind front := by
  change 1 + (front ++ bytes).count 10 - bytes.count 10 = 1 + front.count 10
  rw [List.count_append]
  omega

/-- Where a record stands in some bytes: behind line breaks that are skipped, in front of which the
record before it ended with a line break of its own, if there is one. -/
structure Stands (bytes : List UInt8) (number : Nat) (front gap row : List UInt8) : Prop where
  cut : bytes = front ++ gap ++ row
  start : (starts bytes)[number]? = some row
  skipped : ∀ b ∈ gap, isLineBreak b
  first : number = 0 → front = []
  later : number ≠ 0 → ∃ b, front.getLast? = some b ∧ isLineBreak b

/-- The first record stands behind the line breaks with which the bytes begin. -/
theorem stands_zero {bytes bs : List UInt8} {b : UInt8}
    (hdrop : bytes.dropWhile isLineBreak = b :: bs) :
    Stands bytes 0 [] (bytes.takeWhile isLineBreak) (b :: bs) where
  cut := by rw [List.nil_append, ← hdrop, List.takeWhile_append_dropWhile]
  start := by
    rw [starts_of_cons hdrop]
    rfl
  skipped c hc := List.all_eq_true.1 List.all_takeWhile c hc
  first _ := rfl
  later hne := absurd rfl hne

/-- Where a record stands behind the first record, it stands as the next one in all bytes. -/
theorem Stands.succ {bytes bs taken before gap row : List UInt8} {b : UInt8} {number : Nat}
    (hdrop : bytes.dropWhile isLineBreak = b :: bs)
    (hbytes : bytes = bytes.takeWhile isLineBreak ++ taken ++ (readFields (b :: bs)).2)
    (hend : (readFields (b :: bs)).2 = [] ∨ ∃ last, taken.getLast? = some last ∧ isLineBreak last)
    (h : Stands (readFields (b :: bs)).2 number before gap row) :
    Stands bytes (number + 1) (bytes.takeWhile isLineBreak ++ taken ++ before) gap row where
  cut := by
    rw [List.append_assoc, List.append_assoc _ before, ← List.append_assoc before, ← h.cut]
    exact hbytes
  start := by
    rw [starts_of_cons hdrop, List.getElem?_cons_succ]
    exact h.start
  skipped := h.skipped
  first hzero := absurd hzero (Nat.succ_ne_zero number)
  later _ := by
    rcases Nat.eq_zero_or_pos number with hzero | hpos
    · -- the record before this one is the one that has just been read
      rw [h.first hzero, List.append_nil]
      rcases hend with hnil | ⟨last, hlast, hbreak⟩
      · have hstart := h.start
        rw [hnil, starts] at hstart
        simp at hstart
      · exact ⟨last, by rw [List.getLast?_append, hlast, Option.some_or], hbreak⟩
    · obtain ⟨last, hlast, hbreak⟩ := h.later (Nat.pos_iff_ne_zero.1 hpos)
      exact ⟨last, by rw [List.getLast?_append, hlast, Option.some_or], hbreak⟩

/-- Records come in the order in which they stand, each with its fields and with the line on which
the record before it ended. The induction goes over the records, with all bytes before them in
`front`. -/
theorem placed_recordsFrom {front bytes : List UInt8} {first number : Nat} {r : Record}
    (h : (recordsFrom (front ++ bytes) first bytes)[number]? = some r) :
    ∃ before gap row, Stands bytes number before gap row ∧ r.fields = (readFields row).1 ∧
      r.place.line = lineBehind (front ++ before) := by
  induction number generalizing front bytes first with
  | zero =>
    rw [recordsFrom] at h
    split at h
    · cases h
    · rename_i b bs hdrop
      obtain rfl := Option.some.inj h
      refine ⟨[], _, b :: bs, stands_zero hdrop, rfl, ?_⟩
      rw [List.append_nil]
      exact line_placeBefore first
  | succ number ih =>
    rw [recordsFrom] at h
    split at h
    · cases h
    · rename_i b bs hdrop
      rw [List.getElem?_cons_succ] at h
      obtain ⟨taken, htaken, hend⟩ := exists_taken_readFields (b :: bs)
      have hbytes : bytes = bytes.takeWhile isLineBreak ++ taken ++ (readFields (b :: bs)).2 := by
        rw [List.append_assoc, ← htaken, ← hdrop, List.takeWhile_append_dropWhile]
      have hsheet : front ++ bytes =
          (front ++ (bytes.takeWhile isLineBreak ++ taken)) ++ (readFields (b :: bs)).2 := by
        rw [List.append_assoc front, ← hbytes]
      rw [hsheet] at h
      obtain ⟨before, gap, row, hstands, hfields, hline⟩ := ih h
      refine ⟨_, gap, row, hstands.succ hdrop hbytes hend, hfields, ?_⟩
      rw [hline, List.append_assoc]

/-- A byte order mark has no line feed. -/
theorem exists_byteOrderMark (sheet : List UInt8) :
    ∃ mark, sheet = mark ++ dropByteOrderMark sheet ∧ mark.count 10 = 0 := by
  unfold dropByteOrderMark
  split
  · exact ⟨[0xEF, 0xBB, 0xBF], rfl, by decide⟩
  · exact ⟨[], rfl, rfl⟩

/-! ## The line of a fault -/

/-- Which line the fault of a sheet names. Take a sheet with a valid header and the first row in it
that holds no account, whatever is wrong with it. The sheet fails with the fault of that row. The
row stands behind line breaks that are skipped (`gap`), and in front of them the row before it, or
the header, ends with a line break (`front`).

* The line that is named is the one behind `front`.
* So it is the line of the row if and only if no line feed is skipped, and else it is too small by
as many as are. -/
theorem fault_names_end_of_row_before {sheet : List UInt8} {header : List (List Char)}
    {rows : List Record}
    (hheaded : Headed sheet header rows) {number : Nat} {r : Record} (hr : rows[number]? = some r)
    (hbefore : ∀ p ∈ rows.take number, ∃ a, p.Holds header a) (hno : ∀ a, ¬ r.Holds header a) :
    ∃ fault front gap row, accounts sheet = .error fault ∧ readAccount header r = .error fault ∧
      sheet = front ++ gap ++ row ∧ (recordStarts sheet)[number + 1]? = some row ∧
      (∀ b ∈ gap, isLineBreak b) ∧ (∃ b, front.getLast? = some b ∧ isLineBreak b) ∧
      fault.toFault = .malformedSheet (some (lineBehind front)) fault.detail ∧
      lineBehind (front ++ gap) = lineBehind front + gap.count 10 ∧
      (lineBehind front = lineBehind (front ++ gap) ↔ 10 ∉ gap) := by
  obtain ⟨fault, hfault⟩ : ∃ fault, readAccount header r = .error fault := by
    cases hread : readAccount header r with
    | error fault => exact ⟨fault, rfl⟩
    | ok a => exact absurd (readAccount_eq_ok_iff.1 hread) (hno a)
  have haccounts : accounts sheet = .error fault := by
    rw [hheaded.accounts_eq, readAccounts_eq_error_iff]
    obtain ⟨hlength, hget⟩ := List.getElem?_eq_some_iff.1 hr
    refine ⟨rows.take number, r, rows.drop (number + 1), ?_, hbefore, hfault⟩
    rw [← hget, List.getElem_cons_drop, List.take_append_drop]
  -- the row is a record of the sheet, behind the header
  obtain ⟨mark, hmark, hfeeds⟩ := exists_byteOrderMark sheet
  have hrecord :
      (recordsFrom (mark ++ dropByteOrderMark sheet) 0 (dropByteOrderMark sheet))[number + 1]? =
        some r := by
    rw [← hmark]
    cases hheaded with
    | empty => cases hr
    | @header first rows hrecords =>
      unfold records at hrecords
      cases hall : recordsFrom sheet 0 (dropByteOrderMark sheet) with
      | nil =>
        rw [hall] at hrecords
        cases hrecords
      | cons head tail =>
        rw [hall] at hrecords
        rw [List.getElem?_cons_succ, (List.cons.inj hrecords).2]
        exact hr
  obtain ⟨before, gap, row, hstands, -, hline⟩ := placed_recordsFrom hrecord
  have hcount : lineBehind (mark ++ before ++ gap) =
      lineBehind (mark ++ before) + gap.count 10 := by
    unfold lineBehind
    rw [List.count_append]
    omega
  refine ⟨fault, mark ++ before, gap, row, haccounts, hfault, ?_, hstands.start, hstands.skipped,
    ?_, ?_, hcount, ?_⟩
  · rw [List.append_assoc mark, List.append_assoc mark, ← hstands.cut]
    exact hmark
  · obtain ⟨last, hlast, hbreak⟩ := hstands.later (Nat.succ_ne_zero number)
    exact ⟨last, by rw [List.getLast?_append, hlast, Option.some_or], hbreak⟩
  · rw [SheetFault.toFault, line_of_readAccount_eq_error hfault, hline]
  · rw [hcount, ← List.count_eq_zero]
    omega

/-- A row whose balance is no number. It is placed on the line on which the row in front of it
ended. -/
def letteredRow : Record :=
  ⟨⟨1, 1, 82⟩, encoded ["1", "10", "Ada", "ada@example.com", "checking", "abc", "USD"]⟩

/-- The sheet with that row on its second line. Lines end with a carriage return and a line feed. -/
def letteredSheet : List UInt8 :=
  Text.Utf8.encode
    ("account_id,customer_id,customer_name,customer_email,account_type,balance,currency\r\n" ++
    "1,10,Ada,ada@example.com,checking,abc,USD\r\n").toList

/-- The row starts on the second line, and the fault names the first. -/
theorem second_line_is_named_first :
    Headed letteredSheet (namesInOrder.map fieldText) [letteredRow] ∧
      (∀ a, ¬ letteredRow.Holds (namesInOrder.map fieldText) a) ∧
      ∃ fault front row, accounts letteredSheet = .error fault ∧
        fault.toFault = .malformedSheet (some 1) "Invalid balance 'abc' for account 1" ∧
        (recordStarts letteredSheet)[1]? = some row ∧ letteredSheet = front ++ row ∧
        lineBehind front = 2 := by
  have hrecords : records letteredSheet = [⟨.start, namesInOrder⟩, letteredRow] := by
    decide +kernel
  have hheaded : Headed letteredSheet (namesInOrder.map fieldText) [letteredRow] :=
    .header hrecords (by decide +kernel)
  have hread : readAccount (namesInOrder.map fieldText) letteredRow =
      .error (.row letteredRow.place (.unreadableBalance "abc" 1)) := by
    decide +kernel
  have hno (a : Account) : ¬ letteredRow.Holds (namesInOrder.map fieldText) a := by
    intro ha
    rw [← readAccount_eq_ok_iff, hread] at ha
    cases ha
  have hfirst : [letteredRow][0]? = some letteredRow := rfl
  obtain ⟨fault, -, -, -, haccounts, hfault, -⟩ :=
    fault_names_end_of_row_before hheaded hfirst (by simp) hno
  refine ⟨hheaded, hno, fault, letteredSheet.take 83, letteredSheet.drop 83, haccounts, ?_, ?_, ?_,
    ?_⟩
  · rw [hread] at hfault
    rw [← Except.error.inj hfault]
    decide +kernel
  · decide +kernel
  · exact (List.take_append_drop 83 letteredSheet).symm
  · decide +kernel

end TransferDesk.Sheet
