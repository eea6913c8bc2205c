import TransferDesk.Proofs.Sheet.Lines
/-!
# Loading what has been written

Accounts can be written as a sheet: one column for each part of an account, in any order and with
others among them, and one line for each account (`WrittenSheet.Presents`). They are loaded back
from its bytes (`loads_what_is_written`).

What may go wrong is that a column with another name is taken for one of the seven. Names are read
without the blanks around them, and the first of them without a byte order mark, so another name has
to stay another one without these (`WrittenSheet.Unmistakable`, `lookalikes_are_repeated`).
-/

namespace TransferDesk.Sheet

open TransferDesk.Text (trim)
open TransferDesk.Text.Utf8 (encode validUpTo?)

/-- A sheet that is to be written: a header and the lines behind it. -/
structure WrittenSheet where
  header : WrittenLine
  rows : List WrittenLine
deriving DecidableEq, Repr

namespace WrittenSheet

/-- The sheet as it is written, line by line. -/
def toChars (s : WrittenSheet) : List Char :=
  (s.header :: s.rows).flatMap WrittenLine.toChars

/-- The bytes of the sheet. -/
def bytes (s : WrittenSheet) : List UInt8 :=
  encode s.toChars

/-- A sheet that shows accounts: every column is named once in its header, and every line has one of
the accounts, in their order. -/
structure Presents (s : WrittenSheet) (as : List Account) : Prop where
  once : ∀ c : Column, (s.header.fields.map WrittenField.text).count c.name.toList = 1
  rows : List.Forall₂ (fun a l => l.Shows s.header.fields (.ofAccount a)) as s.rows

/-- No other name is taken for that of a column: neither without the blanks around it, nor, if the
sheet starts with a byte order mark because its first name does, without that. -/
structure Unmistakable (s : WrittenSheet) : Prop where
  blanks : ∀ f ∈ s.header.fields, ∀ c : Column, trim f.text = c.name.toList → f.text = c.name.toList
  mark : ∀ f ∈ s.header.fields.head?, f.toChars.head? = some '\uFEFF' →
    ∀ c : Column, trim f.text.tail ≠ c.name.toList

end WrittenSheet

/-- A first field without the byte order mark that it starts with. -/
def WrittenField.withoutMark (f : WrittenField) : WrittenField :=
  if f.toChars.head? = some '\uFEFF' then { f with text := f.text.tail } else f

/-- A header without the byte order mark that it starts with. -/
def WrittenLine.withoutMark (l : WrittenLine) : WrittenLine :=
  { l with fields := match l.fields with
    | [] => []
    | f :: fs => f.withoutMark :: fs }

/-- Only a bare field without spaces in front starts with a byte order mark, and only if its text
does. -/
theorem WrittenField.toChars_of_mark {f : WrittenField} (h : f.toChars.head? = some '\uFEFF') :
    f.text.head? = some '\uFEFF' ∧ f.toChars = '\uFEFF' :: f.withoutMark.toChars := by
  have hwithout : f.withoutMark = { f with text := f.text.tail } := if_pos h
  have hbare : ¬ NeedsQuotes f.text := by
    intro hquotes
    rw [toChars_of_needsQuotes hquotes] at h
    cases h
  have hrest : ¬ NeedsQuotes f.text.tail := by
    rintro ⟨c, hc, hmarks⟩
    exact hbare ⟨c, List.mem_of_mem_tail hc, hmarks⟩
  have hchars : f.withoutMark.toChars =
      List.replicate f.before ' ' ++ f.text.tail ++ List.replicate f.after ' ' := by
    rw [hwithout]
    exact (toChars_of_bare hrest).trans (content_of_bare hrest)
  rw [toChars_of_bare hbare, content_of_bare hbare] at h
  rw [toChars_of_bare hbare, content_of_bare hbare, hchars]
  clear hwithout hchars
  obtain ⟨text, before, after⟩ := f
  dsimp only at *
  -- a space in front, or behind an empty text, would come first
  rcases before with _ | before
  · rcases text with _ | ⟨c, cs⟩
    · rcases after with _ | after <;> cases h
    · obtain rfl : c = '\uFEFF' := Option.some.inj h
      exact ⟨rfl, rfl⟩
  · cases h

/-- The reader drops the byte order mark with which a header starts. -/
theorem dropByteOrderMark_toChars {l : WrittenLine} (hwide : 2 ≤ l.fields.length)
    (rest : List Char) :
    dropByteOrderMark (encode (l.toChars ++ rest)) = encode (l.withoutMark.toChars ++ rest) := by
  obtain ⟨fields, ending, empties⟩ := l
  rcases fields with _ | ⟨f, _ | ⟨g, fs⟩⟩
  · exact absurd hwide (Nat.not_succ_le_zero 1)
  · exact absurd hwide (Nat.not_succ_le_self 1)
  have hchars (f : WrittenField) :
      WrittenLine.toChars ⟨f :: g :: fs, ending, empties⟩ ++ rest = f.toChars ++
        (',' :: (WrittenLine.chars ⟨g :: fs, ending, empties⟩ ++
          WrittenLine.breaks ⟨f :: g :: fs, ending, empties⟩ ++ rest)) := by
    unfold WrittenLine.toChars
    rw [WrittenLine.chars_cons_cons rfl]
    simp only [List.append_assoc, List.cons_append]
  change _ = encode (WrittenLine.toChars ⟨f.withoutMark :: g :: fs, ending, empties⟩ ++ rest)
  rw [hchars, hchars]
  by_cases hmark : f.toChars.head? = some '\uFEFF'
  · rw [(WrittenField.toChars_of_mark hmark).2]
    rfl
  · have hsame : f.withoutMark = f := if_neg hmark
    rw [hsame]
    refine dropByteOrderMark_encode ?_
    rw [List.head?_append]
    -- nothing of an empty field is written, so the line starts with a comma
    cases hhead : f.toChars.head? with
    | none =>
      intro hcomma
      cases hcomma
    | some c => rwa [hhead] at hmark

theorem WrittenSheet.Presents.wide {s : WrittenSheet} {as : List Account} (h : s.Presents as) :
    2 ≤ s.header.fields.length ∧ ∀ l ∈ s.rows, 2 ≤ l.fields.length := by
  have hheader : 2 ≤ s.header.fields.length := by
    have hid := h.once .accountId
    have hcustomer := h.once .customerId
    rcases hfields : s.header.fields with _ | ⟨f, _ | ⟨g, fs⟩⟩
    · rw [hfields] at hid
      cases hid
    · -- one field does not have two names
      rw [hfields] at hid hcustomer
      have hfirst := List.count_pos_iff.1 (hid ▸ Nat.one_pos)
      have hsecond := List.count_pos_iff.1 (hcustomer ▸ Nat.one_pos)
      have hnames := (List.mem_singleton.1 hfirst).trans (List.mem_singleton.1 hsecond).symm
      exact absurd hnames (by decide)
    · exact Nat.le_add_left 2 fs.length
  refine ⟨hheader, fun l hl => ?_⟩
  obtain ⟨n, hn, rfl⟩ := List.getElem_of_mem hl
  have hshows := h.rows.get (List.Forall₂.length_eq h.rows ▸ hn) hn
  have hlength := List.Forall₂.length_eq hshows
  exact hlength ▸ hheader

/-- What is written is read as the records of its lines, behind a header without a mark. -/
theorem WrittenSheet.Presents.exists_headed {s : WrittenSheet} {as : List Account}
    (h : s.Presents as) :
    ∃ rows, Headed s.bytes (s.header.withoutMark.fields.map fun f => trim f.text) rows ∧
      rows.map Record.fields = s.rows.map WrittenLine.contents := by
  obtain ⟨hheader, hrows⟩ := h.wide
  have hwide : ∀ l ∈ s.header.withoutMark :: s.rows, 2 ≤ l.fields.length := by
    refine List.forall_mem_cons.2 ⟨?_, hrows⟩
    unfold WrittenLine.withoutMark
    revert hheader
    cases s.header.fields with
    | nil => exact id
    | cons f fs => exact id
  have hdrop : dropByteOrderMark s.bytes =
      [] ++ encode ((s.header.withoutMark :: s.rows).flatMap WrittenLine.toChars) :=
    dropByteOrderMark_toChars hheader (s.rows.flatMap WrittenLine.toChars)
  have hfields := fields_records s.bytes
  rw [hdrop, fields_recordsFrom hwide (by simp), List.map_cons] at hfields
  obtain ⟨first, rows, hrecords, hfirst, hrest⟩ := List.map_eq_cons_iff.1 hfields
  refine ⟨rows, ?_, hrest⟩
  have hvalid : ∀ field ∈ first.fields, validUpTo? field = none := by
    rw [hfirst]
    intro field hfield
    obtain ⟨f, -, rfl⟩ := List.mem_map.1 hfield
    exact Text.Utf8.validUpTo?_encode f.content
  have hnames : first.fields.map fieldText = s.header.withoutMark.fields.map fun f =>
      trim f.text := by
    rw [hfirst]
    unfold WrittenLine.contents
    rw [List.map_map]
    refine List.map_congr_left fun f _ => ?_
    exact (fieldText_encode f.content).trans f.trim_content
  rw [← hnames]
  exact .header hrecords hvalid

/-- The names of the columns are not trimmed and have no byte order mark. -/
theorem Column.name_plain (c : Column) : trim c.name.toList = c.name.toList ∧
    c.name.toList.head? ≠ some '\uFEFF' := by
  cases c <;> decide +kernel

theorem WrittenSheet.Unmistakable.named {s : WrittenSheet} (h : s.Unmistakable) :
    Named s.header.fields (s.header.withoutMark.fields.map fun f => trim f.text) := by
  have hfield {f : WrittenField} (hf : f ∈ s.header.fields) (c : Column) :
      Column.ofName? (trim f.text) = some c ↔ f.text = c.name.toList := by
    rw [Column.ofName?_eq_some_iff]
    refine ⟨h.blanks f hf c, ?_⟩
    intro hname
    rw [hname]
    exact c.name_plain.1
  have hmark := h.mark
  unfold WrittenLine.withoutMark Named
  rw [List.forall₂_map_right_iff]
  cases hfields : s.header.fields with
  | nil => exact .nil
  | cons f fs =>
    rw [hfields] at hfield hmark
    -- only the first name may lose a mark
    refine .cons ?_ (List.forall₂_same.2 fun g hg => hfield (List.mem_cons_of_mem f hg))
    intro c
    unfold WrittenField.withoutMark
    split
    · rename_i hfirst
      rw [Column.ofName?_eq_some_iff]
      refine iff_of_false (hmark f rfl hfirst c) ?_
      intro hname
      refine c.name_plain.2 ?_
      rw [← hname]
      exact (WrittenField.toChars_of_mark hfirst).1
    · exact hfield List.mem_cons_self c

/-- Accounts that have been written as a sheet are loaded back. The columns come in any order and
with any others among them, as long as none of these is mistaken for one of the seven. Fields stand
in quotes where they have to, and otherwise bare with any number of spaces around them. Each line
has an ending of its own, with any number of empty lines behind it. The accounts are the same, in
the same order; only a minus in front of a zero is lost. -/
theorem loads_what_is_written {s : WrittenSheet} {as : List Account} (h : s.Presents as)
    (has : ∀ a ∈ as, a.Presentable) (hnames : s.Unmistakable) :
    accounts s.bytes = .ok (as.map Account.withoutNegativeZero) ∧
      ((∀ a ∈ as, a.balance.magnitude = 0 → a.balance.negative = false) →
        accounts s.bytes = .ok as) := by
  obtain ⟨rows, hheaded, hrows⟩ := h.exists_headed
  have hholds := holds_of_shows hnames.named h.once has h.rows hrows
  have hloaded : accounts s.bytes = .ok (as.map Account.withoutNegativeZero) := by
    rw [hheaded.accounts_eq]
    exact readAccounts_eq_ok_iff.2 hholds
  refine ⟨hloaded, ?_⟩
  intro hzero
  have hsame : as.map Account.withoutNegativeZero = as := by
    rw [List.map_congr_left fun a ha => Account.withoutNegativeZero_eq (hzero a ha), List.map_id']
  rw [hloaded, hsame]

/-- An account at the limits: the least number, the greatest balance, and a name with quotes, a
comma and a line ending in it. -/
def countess : Account where
  id := -2147483648
  customerId := 2147483647
  customerName := "Ada, \"the\r\nfirst\""
  customerEmail := ""
  kind := "checking"
  balance := .ofParts 79228162514264337593543950335 2
  currency := "GBP"

/-- Another one, with a balance below zero that is printed with three places. -/
def emile : Account where
  id := 2
  customerId := 20
  customerName := "Émile"
  customerEmail := "emile@example.com"
  kind := "savings"
  balance := .ofParts (-500) 3
  currency := "EUR"

/-- Both of them in a sheet with the columns in another order, an unknown one in front, both line
endings and empty lines. -/
def motleySheet : WrittenSheet where
  header := {
    fields := [{ text := "\uFEFFnote".toList },
      { text := "currency".toList, before := 1, after := 2 }, { text := "balance".toList },
      { text := "account_type".toList }, { text := "customer_name".toList },
      { text := "customer_email".toList, before := 3 }, { text := "customer_id".toList },
      { text := "account_id".toList }]
    ending := ⟨['\r', '\n'], by decide⟩
    empties := [⟨['\n'], by decide⟩, ⟨['\r', '\n'], by decide⟩] }
  rows := [
    { fields := [{ text := "".toList }, { text := "GBP".toList },
        { text := "792281625142643375935439503.35".toList },
        { text := "checking".toList, after := 1 },
        { text := "Ada, \"the\r\nfirst\"".toList }, { text := "".toList, before := 2 },
        { text := "2147483647".toList }, { text := "-2147483648".toList }]
      ending := ⟨['\n'], by decide⟩ },
    { fields := [{ text := " \u00A0,".toList }, { text := "EUR".toList },
        { text := "-0.500".toList, before := 1 }, { text := "savings".toList },
        { text := "Émile".toList }, { text := "emile@example.com".toList },
        { text := "20".toList }, { text := "2".toList }]
      ending := ⟨['\r', '\n'], by decide⟩ }]

theorem motleySheet_is_loaded :
    motleySheet.Presents [countess, emile] ∧ (∀ a ∈ [countess, emile], a.Presentable) ∧
      motleySheet.Unmistakable ∧
      motleySheet.toChars =
        ["\uFEFFnote, currency  ,balance,account_type,customer_name,   customer_email,",
        "customer_id,account_id\r\n\n\r\n,GBP,792281625142643375935439503.35,checking ,",
        "\"Ada, \"\"the\r\nfirst\"\"\",  ,2147483647,-2147483648\n",
        "\" \u00A0,\",EUR, -0.500,savings,Émile,emile@example.com,20,2\r\n"].flatMap String.toList ∧
      accounts motleySheet.bytes = .ok [countess, emile] := by
  have hpresents : motleySheet.Presents [countess, emile] :=
    ⟨by decide +kernel, by decide +kernel⟩
  have hpresentable : ∀ a ∈ [countess, emile], a.Presentable := by
    simp only [List.forall_mem_cons]
    refine ⟨⟨by decide +kernel, by decide +kernel, by decide +kernel, ?_, by decide +kernel⟩,
      ⟨by decide +kernel, by decide +kernel, by decide +kernel, ?_, by decide +kernel⟩, by simp⟩
    · exact Decimal.not_exceedsMoney_iff_value.1 (by decide +kernel)
    · exact Decimal.not_exceedsMoney_iff_value.1 (by decide +kernel)
  have hnames : motleySheet.Unmistakable := ⟨by decide +kernel, by decide +kernel⟩
  have hzero : ∀ a ∈ [countess, emile], a.balance.magnitude = 0 → a.balance.negative = false := by
    decide +kernel
  refine ⟨hpresents, hpresentable, hnames, by decide +kernel, ?_⟩
  exact (loads_what_is_written hpresents hpresentable hnames).2 hzero

/-- An account in a sheet whose first column has another name. -/
def alice : Account where
  id := 1
  customerId := 10
  customerName := "Alice"
  customerEmail := "alice@example.com"
  kind := "checking"
  balance := .ofParts 10000 2
  currency := "USD"

/-- A sheet with the account of Alice, in which a column of another name stands in front of all
others. -/
def sheetBehind (name : String) : WrittenSheet where
  header := {
    fields := [{ text := name.toList }, { text := "account_id".toList },
      { text := "customer_id".toList }, { text := "customer_name".toList },
      { text := "customer_email".toList }, { text := "account_type".toList },
      { text := "balance".toList }, { text := "currency".toList }]
    ending := ⟨['\n'], by decide⟩ }
  rows := [{
    fields := [{ text := "x".toList }, { text := "1".toList }, { text := "10".toList },
      { text := "Alice".toList }, { text := "alice@example.com".toList },
      { text := "checking".toList }, { text := "100.00".toList }, { text := "USD".toList }]
    ending := ⟨['\n'], by decide⟩ }]

/-- Two other names than that of the column for balances that are both taken for it: with a byte
order mark at the start of the sheet, and with a blank behind it that is no space. -/
theorem lookalikes_are_repeated :
    alice.Presentable ∧
      (sheetBehind "\uFEFFbalance").Presents [alice] ∧
      accounts (sheetBehind "\uFEFFbalance").bytes =
        .error (.cells ⟨1, 2, 93⟩ (.repeated .balance)) ∧
      (sheetBehind "balance\u00A0").Presents [alice] ∧
      accounts (sheetBehind "balance\u00A0").bytes =
        .error (.cells ⟨1, 2, 92⟩ (.repeated .balance)) := by
  refine ⟨⟨by decide +kernel, by decide +kernel, by decide +kernel, ?_, by decide +kernel⟩,
    ⟨by decide +kernel, by decide +kernel⟩, by decide +kernel,
    ⟨by decide +kernel, by decide +kernel⟩, by decide +kernel⟩
  exact Decimal.not_exceedsMoney_iff_value.1 (by decide +kernel)

end TransferDesk.Sheet
