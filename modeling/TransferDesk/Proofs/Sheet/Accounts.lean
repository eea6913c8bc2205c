import TransferDesk.Proofs.Sheet.Cells
import TransferDesk.Proofs.Sheet.Conversion
import TransferDesk.Sheet.Loader
/-!
# The accounts in the records

A record holds an account if it has as many fields as the header, all of them UTF-8, and its cells
make a row that is the account (`Record.Holds`). That is when it is read (`readAccount_eq_ok_iff`).
Where it stands in the sheet makes no difference to the account, only to the fault
(`line_of_readAccount_eq_error`).

The records of a sheet are read one after the other: all of them, or up to the first that holds no
account (`readAccounts_eq_ok_iff`, `readAccounts_eq_error_iff`).
-/

namespace TransferDesk.Sheet

open TransferDesk.Text.Utf8 (decodeLossy validUpTo?)

/-- The text of a field, without the blanks around it. -/
def fieldText (field : List UInt8) : List Char :=
  Text.trim (decodeLossy field)

/-- The texts of the cells of a record. -/
def Record.texts (r : Record) : List (List Char) :=
  r.fields.map fun field => fieldText (trimBytes field)

/-- The account that is in a record. -/
structure Record.Holds (header : List (List Char)) (r : Record) (a : Account) : Prop where
  width : r.fields.length = header.length
  encoding : ∀ field ∈ r.fields, validUpTo? (trimBytes field) = none
  row : ∃ row : Row, (∀ c : Column, ∃ text, c.texts (header.zip r.texts) = [text] ∧
    c.Reads text (row.value c)) ∧ row.Converts a

/-- The fields of a record with the given texts. -/
def encoded (texts : List String) : List (List UInt8) :=
  texts.map fun text => Text.Utf8.encode text.toList

/-- The fields of a header with the names of all columns, in the order in which missing ones are
noticed. -/
def namesInOrder : List (List UInt8) :=
  encoded (Column.all.map Column.name)

/-! ## Fields -/

/-- Fields are read if all of them are UTF-8. -/
theorem decodeFields_eq_ok_iff {place : Place} {number : Nat} {fields : List (List UInt8)}
    {texts : List (List Char)} :
    decodeFields place number fields = .ok texts ↔
      (∀ field ∈ fields, validUpTo? field = none) ∧ texts = fields.map fieldText := by
  induction fields generalizing number texts with
  | nil => simp [decodeFields, eq_comm]
  | cons field fields ih =>
    rw [decodeFields]
    cases hvalid : validUpTo? field with
    | some byte => simp [hvalid]
    | none =>
      dsimp only
      cases hrest : decodeFields place (number + 1) fields with
      | error fault =>
        refine iff_of_false (by simp) ?_
        rintro ⟨hall, -⟩
        have hok : decodeFields place (number + 1) fields = .ok (fields.map fieldText) :=
          ih.2 ⟨fun field hfield => hall field (List.mem_cons_of_mem _ hfield), rfl⟩
        rw [hrest] at hok
        cases hok
      | ok more =>
        obtain ⟨hall, rfl⟩ := ih.1 hrest
        simp only [Except.ok.injEq, List.forall_mem_cons, hvalid, true_and, List.map_cons,
          fieldText]
        constructor
        · intro h
          exact ⟨hall, h.symm⟩
        · intro h
          exact h.2.symm

/-- A fault in the encoding is at the place of the record. -/
theorem line_of_decodeFields {place : Place} {number : Nat} {fields : List (List UInt8)}
    {fault : SheetFault} (h : decodeFields place number fields = .error fault) :
    fault.line = place.line := by
  induction fields generalizing number with
  | nil => cases h
  | cons field fields ih =>
    rw [decodeFields] at h
    split at h
    · rw [← Except.error.inj h]
      rfl
    · split at h
      · rename_i hrest
        rw [Except.error.inj h] at hrest
        exact ih hrest
      · cases h

/-! ## Records -/

/-- The account in a record is read, and nothing else is. -/
theorem readAccount_eq_ok_iff {header : List (List Char)} {r : Record} {a : Account} :
    readAccount header r = .ok a ↔ r.Holds header a := by
  have hfields (texts : List (List Char)) :
      decodeFields r.place 0 (r.fields.map trimBytes) = .ok texts ↔
        (∀ field ∈ r.fields, validUpTo? (trimBytes field) = none) ∧ texts = r.texts := by
    rw [decodeFields_eq_ok_iff, List.forall_mem_map, List.map_map]
    rfl
  unfold readAccount
  constructor
  · intro h
    split at h
    · cases h
    rename_i hwidth
    split at h
    · cases h
    rename_i texts htexts
    obtain ⟨hencoding, rfl⟩ := (hfields _).1 htexts
    split at h
    · cases h
    rename_i row hrow
    refine ⟨Decidable.not_not.1 hwidth, hencoding, row, Row.ofCells_eq_ok_iff.1 hrow, ?_⟩
    cases haccount : row.toAccount with
    | error fault =>
      rw [haccount] at h
      cases h
    | ok b =>
      rw [haccount] at h
      rw [← Except.ok.inj h]
      exact Row.toAccount_eq_ok_iff.1 haccount
  · rintro ⟨hwidth, hencoding, row, hcells, hconverts⟩
    have htexts := (hfields r.texts).2 ⟨hencoding, rfl⟩
    have hrow := Row.ofCells_eq_ok_iff.2 hcells
    have haccount := Row.toAccount_eq_ok_iff.2 hconverts
    simp only [hwidth, ne_eq, not_true_eq_false, if_false, htexts, hrow, haccount]
    rfl

/-- Whatever is wrong with a record, the fault has the line of its place. -/
theorem line_of_readAccount_eq_error {header : List (List Char)} {r : Record} {fault : SheetFault}
    (h : readAccount header r = .error fault) : fault.line = r.place.line := by
  unfold readAccount at h
  split at h
  · rw [← Except.error.inj h]
    rfl
  split at h
  · rename_i hfields
    rw [← Except.error.inj h]
    exact line_of_decodeFields hfields
  split at h
  · rw [← Except.error.inj h]
    rfl
  rename_i row _
  cases haccount : row.toAccount with
  | error rowFault =>
    rw [haccount] at h
    rw [← Except.error.inj h]
    rfl
  | ok a =>
    rw [haccount] at h
    cases h

/-! ## Sheets -/

section Records

variable {header : List (List Char)}

theorem readAccounts_cons_of_error {r : Record} {fault : SheetFault}
    (h : readAccount header r = .error fault) (rs : List Record) :
    readAccounts header (r :: rs) = .error fault := by
  rw [readAccounts, h]

theorem readAccounts_cons_of_ok {r : Record} {a : Account} (h : readAccount header r = .ok a)
    (rs : List Record) :
    readAccounts header (r :: rs) = (readAccounts header rs).map (a :: ·) := by
  rw [readAccounts, h]
  cases readAccounts header rs <;> rfl

/-- Records are read if each of them holds an account. -/
theorem readAccounts_eq_ok_iff {rs : List Record} {as : List Account} :
    readAccounts header rs = .ok as ↔ List.Forall₂ (Record.Holds header) rs as := by
  induction rs generalizing as with
  | nil => simp [readAccounts, eq_comm]
  | cons r rs ih =>
    simp only [List.forall₂_cons_left_iff, ← readAccount_eq_ok_iff, ← ih]
    cases hread : readAccount header r with
    | error fault => simp [readAccounts_cons_of_error hread]
    | ok a =>
      rw [readAccounts_cons_of_ok hread]
      cases readAccounts header rs with
      | error fault => simp [Except.map]
      | ok more => simp [Except.map, eq_comm]

/-- Records are not read if one of them holds no account. The first of them is at fault, whatever
follows it. -/
theorem readAccounts_eq_error_iff {rs : List Record} {fault : SheetFault} :
    readAccounts header rs = .error fault ↔
      ∃ before r after, rs = before ++ r :: after ∧ (∀ p ∈ before, ∃ a, p.Holds header a) ∧
        readAccount header r = .error fault := by
  constructor
  · intro h
    induction rs with
    | nil => cases h
    | cons r rs ih =>
      cases hread : readAccount header r with
      | error fault' =>
        rw [readAccounts_cons_of_error hread] at h
        obtain rfl := Except.error.inj h
        exact ⟨[], r, rs, rfl, by simp, hread⟩
      | ok a =>
        have hrest : readAccounts header rs = .error fault := by
          rw [readAccounts_cons_of_ok hread] at h
          cases hrs : readAccounts header rs with
          | error fault' =>
            rw [hrs] at h
            exact h
          | ok more =>
            rw [hrs] at h
            cases h
        -- the record in front has been read, so the first at fault is among the others
        obtain ⟨before, r', after, rfl, hbefore, hfault⟩ := ih hrest
        refine ⟨r :: before, r', after, rfl, ?_, hfault⟩
        exact List.forall_mem_cons.2 ⟨⟨a, readAccount_eq_ok_iff.1 hread⟩, hbefore⟩
  · rintro ⟨before, r, after, rfl, hbefore, hfault⟩
    induction before with
    | nil => exact readAccounts_cons_of_error hfault after
    | cons p before ih =>
      obtain ⟨⟨a, ha⟩, hbefore⟩ := List.forall_mem_cons.1 hbefore
      rw [List.cons_append, readAccounts_cons_of_ok (readAccount_eq_ok_iff.2 ha), ih hbefore]
      rfl

end Records

/-- The names in the header of a sheet, which has to be UTF-8, and the records behind it. A sheet
without records has neither. -/
inductive Headed (sheet : List UInt8) : List (List Char) → List Record → Prop
  | empty (h : records sheet = []) : Headed sheet [] []
  | header {first : Record} {rows : List Record} (h : records sheet = first :: rows)
    (hvalid : ∀ field ∈ first.fields, validUpTo? field = none) :
    Headed sheet (first.fields.map fieldText) rows

/-- A sheet is read by reading the records behind its header. -/
theorem Headed.accounts_eq {sheet : List UInt8} {header : List (List Char)} {rows : List Record}
    (h : Headed sheet header rows) : accounts sheet = readAccounts header rows := by
  unfold accounts
  cases h with
  | empty h =>
    rw [h]
    rfl
  | header h hvalid =>
    rw [h]
    simp only [decodeFields_eq_ok_iff.2 ⟨hvalid, rfl⟩]

end TransferDesk.Sheet
