import Mathlib.Logic.Function.Basic
import TransferDesk.Proofs.Text.Numerals
import TransferDesk.Sheet.Column
/-!
# The row in the cells

Cells make a row if every column is named once in the header, wherever that is, and the cell under
its name reads as what the row has there (`Row.ofCells_eq_ok_iff`). Cells under other names do not
matter.

To say this of all columns in one breath, rows and drafts are taken as tables of `Value`s by column.
The proof follows the cells from left to right: each of them is for no column, or it fills the one
that it is for, which has to be empty (`Gains`).
-/

namespace TransferDesk.Sheet

open TransferDesk.Text (Numeral readInt32 readInt32_eq_ok_iff)

/-! ## Numbers -/

/-- The text is a number: a numeral, or hexadecimal digits behind `0x`. -/
def IsNumber (text : List Char) (n : Int32) : Prop :=
  Numeral text n.toInt ∨ ∃ digits, text = '0' :: 'x' :: digits ∧ readInt32 16 digits = .ok n

theorem not_numeral_hexadecimal {digits : List Char} {z : Int} :
    ¬ Numeral ('0' :: 'x' :: digits) z := by
  intro h
  rcases h.mem (List.mem_cons_of_mem _ List.mem_cons_self) with hx | hx | hx
  · exact absurd hx (by decide)
  · exact absurd hx (by decide)
  · exact absurd hx (by decide)

theorem readNumber_eq_ok_iff {cell : Nat} {text : List Char} {n : Int32} :
    readNumber cell text = .ok n ↔ IsNumber text n := by
  have hok {read : Except Text.IntegerFault Int32} :
      read.mapError (CellFault.badNumber cell) = .ok n ↔ read = .ok n := by
    cases read with
    | error fault =>
      change Except.error (CellFault.badNumber cell fault) = Except.ok n ↔ _
      simp
    | ok n' =>
      change Except.ok n' = Except.ok n ↔ _
      simp
  unfold readNumber IsNumber
  dsimp only
  rw [hok]
  split
  · rename_i digits
    simp [not_numeral_hexadecimal]
  · rename_i hno
    rw [readInt32_eq_ok_iff]
    refine (or_iff_left ?_).symm
    rintro ⟨digits, rfl, -⟩
    exact hno digits rfl

/-! ## Values by column -/

/-- What stands in a column: a number or a text. -/
inductive Value where
  | number (n : Int32)
  | text (s : String)
deriving DecidableEq, Repr

/-- What a row has in a column. -/
def Row.value (r : Row) : Column → Value
  | .accountId => .number r.accountId
  | .customerId => .number r.customerId
  | .customerName => .text r.customerName
  | .customerEmail => .text r.customerEmail
  | .kind => .text r.kind
  | .balance => .text r.balance
  | .currency => .text r.currency

/-- The text in a cell is read as a value of the column: as a number in a column of numbers, and as
it stands in all others. -/
def Column.Reads (text : List Char) (v : Value) : Column → Prop
  | .accountId | .customerId => ∃ n, IsNumber text n ∧ v = .number n
  | .customerName | .customerEmail | .kind | .balance | .currency => v = .text (String.ofList text)

theorem isNumber_unique {text : List Char} {n m : Int32} (hn : IsNumber text n)
    (hm : IsNumber text m) :
    n = m := by
  have hread : readNumber 0 text = .ok n := readNumber_eq_ok_iff.2 hn
  rw [readNumber_eq_ok_iff.2 hm] at hread
  exact (Except.ok.inj hread).symm

theorem Column.Reads.unique {c : Column} {text : List Char} {v w : Value} (hv : c.Reads text v)
    (hw : c.Reads text w) : v = w := by
  have hnumber (hv : ∃ n, IsNumber text n ∧ v = .number n)
      (hw : ∃ n, IsNumber text n ∧ w = .number n) :
      v = w := by
    obtain ⟨n, hn, rfl⟩ := hv
    obtain ⟨m, hm, rfl⟩ := hw
    rw [isNumber_unique hn hm]
  have htext (hv : v = .text (String.ofList text)) (hw : w = .text (String.ofList text)) : v = w :=
    hv.trans hw.symm
  cases c with
  | accountId | customerId => exact hnumber hv hw
  | customerName | customerEmail | kind | balance | currency => exact htext hv hw

namespace Draft

/-- What a draft has in a column, if the cell of the column has been read. -/
def value? (d : Draft) : Column → Option Value
  | .accountId => d.accountId.map .number
  | .customerId => d.customerId.map .number
  | .customerName => d.customerName.map .text
  | .customerEmail => d.customerEmail.map .text
  | .kind => d.kind.map .text
  | .balance => d.balance.map .text
  | .currency => d.currency.map .text

theorem has_eq (d : Draft) (c : Column) : d.has c = (d.value? c).isSome := by
  cases c <;> exact Option.isSome_map.symm

/-- A draft is known by its values. -/
theorem ext_value? {d e : Draft} (h : d.value? = e.value?) : d = e := by
  have hnumber {a b : Option Int32} (h : a.map Value.number = b.map Value.number) : a = b :=
    Option.map_injective (fun _ _ => Value.number.inj) h
  have htext {a b : Option String} (h : a.map Value.text = b.map Value.text) : a = b :=
    Option.map_injective (fun _ _ => Value.text.inj) h
  have hid := hnumber (congrFun h .accountId)
  have hcustomer := hnumber (congrFun h .customerId)
  have hname := htext (congrFun h .customerName)
  have hemail := htext (congrFun h .customerEmail)
  have hkind := htext (congrFun h .kind)
  have hbalance := htext (congrFun h .balance)
  have hcurrency := htext (congrFun h .currency)
  cases d
  cases e
  simp_all

/-- A draft without an empty column is a row. -/
theorem toRow_eq_ok_iff {d : Draft} {r : Row} :
    d.toRow = .ok r ↔ ∀ c, d.value? c = some (r.value c) := by
  constructor
  · intro h
    unfold toRow at h
    split at h
    · obtain rfl := Except.ok.inj h
      intro c
      cases c <;> rfl
    · cases h
  · intro h
    have hvalues : d =
        ⟨some r.accountId, some r.customerId, some r.customerName, some r.customerEmail,
          some r.kind, some r.balance, some r.currency⟩ := by
      refine ext_value? (funext fun c => ?_)
      rw [h c]
      cases c <;> rfl
    rw [hvalues]
    rfl

/-- A cell is read into its column and changes no other, or it is not read. -/
theorem fill_cases (d : Draft) (cell : Nat) (text : List Char) (c : Column) :
    (∃ v d', c.Reads text v ∧ d'.value? = Function.update d.value? c (some v) ∧
        d.fill cell text c = .ok d') ∨
      (∀ v, ¬ c.Reads text v) ∧ ∃ fault, d.fill cell text c = .error fault := by
  have hupdate {c : Column} {v : Value} {d' : Draft} (hc : d'.value? c = some v)
      (hother : ∀ e, e ≠ c → d'.value? e = d.value? e) :
      d'.value? = Function.update d.value? c (some v) :=
    Function.eq_update_iff.2 ⟨hc, hother⟩
  have hnumber {f : Int32 → Draft}
      (hf : ∀ n, (f n).value? = Function.update d.value? c (some (.number n))) :
      (∃ v d', (∃ n, IsNumber text n ∧ v = Value.number n) ∧
          d'.value? = Function.update d.value? c (some v) ∧ (readNumber cell text).map f = .ok d') ∨
        (∀ v, ¬ ∃ n, IsNumber text n ∧ v = Value.number n) ∧
          ∃ fault, (readNumber cell text).map f = .error fault := by
    cases hread : readNumber cell text with
    | ok n =>
      left
      exact ⟨.number n, f n, ⟨n, readNumber_eq_ok_iff.1 hread, rfl⟩, hf n, rfl⟩
    | error fault =>
      right
      refine ⟨?_, fault, rfl⟩
      rintro v ⟨n, hn, -⟩
      have hok : readNumber cell text = .ok n := readNumber_eq_ok_iff.2 hn
      rw [hread] at hok
      cases hok
  cases c with
  | accountId =>
    refine hnumber fun n => hupdate rfl ?_
    intro e he
    cases e <;> first | rfl | exact absurd rfl he
  | customerId =>
    refine hnumber fun n => hupdate rfl ?_
    intro e he
    cases e <;> first | rfl | exact absurd rfl he
  | customerName | customerEmail | kind | balance | currency =>
    left
    refine ⟨_, _, rfl, hupdate rfl ?_, rfl⟩
    intro e he
    cases e <;> first | rfl | exact absurd rfl he

end Draft

/-! ## Cells -/

/-- The texts of the cells under the name of a column. -/
def Column.texts (c : Column) (cells : List (List Char × List Char)) : List (List Char) :=
  (cells.filter fun cell => Column.ofName? cell.1 = some c).map Prod.snd

theorem Column.texts_cons_of_eq {c : Column} {name text : List Char}
    (h : Column.ofName? name = some c) (cells : List (List Char × List Char)) :
    c.texts ((name, text) :: cells) = text :: c.texts cells := by
  simp [Column.texts, h]

theorem Column.texts_cons_of_ne {c : Column} {name text : List Char}
    (h : Column.ofName? name ≠ some c)
    (cells : List (List Char × List Char)) : c.texts ((name, text) :: cells) = c.texts cells := by
  simp [Column.texts, h]

/-- What cells for a column make of its value: nothing if there are none, and one cell fills it if
it was empty. -/
inductive Column.Gains (c : Column) : List (List Char) → Option Value → Option Value → Prop
  | none {v : Option Value} : Gains c [] v v
  | one {text : List Char} {v : Value} (h : c.Reads text v) : Gains c [text] none (some v)

theorem Column.gains_nil_iff {c : Column} {v w : Option Value} : c.Gains [] v w ↔ v = w := by
  constructor
  · rintro (_ | _)
    rfl
  · rintro rfl
    exact .none

/-- A column that is filled takes no cell. -/
theorem Column.gains_some_iff {c : Column} {texts : List (List Char)} {v : Value}
    {w : Option Value} :
    c.Gains texts (some v) w ↔ texts = [] ∧ w = some v := by
  constructor
  · rintro (_ | _)
    exact ⟨rfl, rfl⟩
  · rintro ⟨rfl, rfl⟩
    exact .none

/-- An empty column is filled by its first cell, and takes no other. -/
theorem Column.gains_cons_none_iff {c : Column} {text : List Char} {texts : List (List Char)}
    {w : Option Value} :
    c.Gains (text :: texts) none w ↔ ∃ v, c.Reads text v ∧ c.Gains texts (some v) w := by
  constructor
  · rintro (_ | hread)
    exact ⟨_, hread, .none⟩
  · rintro ⟨v, hread, hrest⟩
    obtain ⟨rfl, rfl⟩ := Column.gains_some_iff.1 hrest
    exact .one hread

/-- What cells make of every column, once the first of them has filled an empty one. -/
theorem Column.gains_texts_cons_iff {filled : Column} {values : Column → Option Value}
    {name text : List Char} {cells : List (List Char × List Char)} {v : Value}
    (hname : Column.ofName? name = some filled) (hempty : values filled = none)
    (hread : filled.Reads text v) (c : Column) (w : Option Value) :
    c.Gains (c.texts ((name, text) :: cells)) (values c) w ↔
      c.Gains (c.texts cells) (Function.update values filled (some v) c) w := by
  by_cases hc : c = filled
  · subst hc
    rw [Function.update_self, hempty, Column.texts_cons_of_eq hname, Column.gains_cons_none_iff]
    constructor
    · rintro ⟨u, hu, hgains⟩
      rwa [hread.unique hu]
    · intro hgains
      exact ⟨v, hread, hgains⟩
  · have hother : Column.ofName? name ≠ some c := by
      rw [hname]
      exact fun h => hc (Option.some.inj h).symm
    rw [Function.update_of_ne hc, Column.texts_cons_of_ne hother]

/-- Cells are read if each of them is for no column or for an empty one. -/
theorem Draft.fillAll_eq_ok_iff {d e : Draft} {cell : Nat} {cells : List (List Char × List Char)} :
    d.fillAll cell cells = .ok e ↔
      ∀ c : Column, c.Gains (c.texts cells) (d.value? c) (e.value? c) := by
  induction cells generalizing d cell with
  | nil =>
    simp only [Draft.fillAll, Except.ok.injEq, Column.texts, List.filter_nil, List.map_nil,
      Column.gains_nil_iff]
    exact ⟨fun h c => by rw [h], fun h => Draft.ext_value? (funext h)⟩
  | cons head cells ih =>
    obtain ⟨name, text⟩ := head
    rw [Draft.fillAll]
    cases hname : Column.ofName? name with
    | none =>
      dsimp only
      rw [ih]
      refine forall_congr' fun c => ?_
      rw [Column.texts_cons_of_ne (by simp [hname])]
    | some column =>
      dsimp only
      rw [Draft.has_eq]
      cases hvalue : d.value? column with
      | some v =>
        -- the column has been read before
        rw [Option.isSome_some, if_pos rfl]
        refine iff_of_false (by simp) ?_
        intro h
        have hcolumn := h column
        rw [hvalue, Column.gains_some_iff, Column.texts_cons_of_eq hname] at hcolumn
        cases hcolumn.1
      | none =>
        rw [Option.isSome_none, if_neg Bool.false_ne_true]
        rcases d.fill_cases cell text column with ⟨v, d', hread, hd', hfill⟩ | ⟨hno, fault, hfill⟩
        · rw [hfill]
          dsimp only
          rw [ih, hd']
          exact forall_congr' fun c => (Column.gains_texts_cons_iff hname hvalue hread c _).symm
        · rw [hfill]
          refine iff_of_false (by simp) ?_
          intro h
          have hcolumn := h column
          rw [hvalue, Column.texts_cons_of_eq hname, Column.gains_cons_none_iff] at hcolumn
          obtain ⟨v, hread, -⟩ := hcolumn
          exact hno v hread

/-- Cells under a header make a row if there is one cell for every column, which reads as what the
row has there. -/
theorem Row.ofCells_eq_ok_iff {header cells : List (List Char)} {r : Row} :
    Row.ofCells header cells = .ok r ↔
      ∀ c : Column, ∃ text, c.texts (header.zip cells) = [text] ∧ c.Reads text (r.value c) := by
  have hempty (c : Column) : ({} : Draft).value? c = none := by cases c <;> rfl
  have hfilled (texts : List (List Char)) (c : Column) (v : Value) :
      c.Gains texts none (some v) ↔ ∃ text, texts = [text] ∧ c.Reads text v := by
    constructor
    · rintro (_ | hread)
      exact ⟨_, rfl, hread⟩
    · rintro ⟨text, rfl, hread⟩
      exact .one hread
  have hgains (e : Draft) : ({} : Draft).fillAll 0 (header.zip cells) = .ok e ↔
      ∀ c : Column, c.Gains (c.texts (header.zip cells)) none (e.value? c) := by
    rw [Draft.fillAll_eq_ok_iff]
    simp only [hempty]
  simp only [← hfilled]
  unfold Row.ofCells
  constructor
  · intro h
    cases hfill : ({} : Draft).fillAll 0 (header.zip cells) with
    | error fault =>
      rw [hfill] at h
      cases h
    | ok e =>
      rw [hfill] at h
      have hvalues := Draft.toRow_eq_ok_iff.1 h
      intro c
      rw [← hvalues c]
      exact (hgains e).1 hfill c
  · intro h
    have hrow : ∃ e : Draft, ∀ c, e.value? c = some (r.value c) := by
      refine ⟨⟨some r.accountId, some r.customerId, some r.customerName, some r.customerEmail,
        some r.kind, some r.balance, some r.currency⟩, fun c => ?_⟩
      cases c <;> rfl
    obtain ⟨e, he⟩ := hrow
    rw [(hgains e).2 fun c => by rw [he c]; exact h c]
    exact Draft.toRow_eq_ok_iff.2 he

end TransferDesk.Sheet
