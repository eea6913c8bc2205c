import TransferDesk.Sheet.Row
import TransferDesk.Text.Integer
/-!
# Columns

The header of a seed sheet names its columns. They may come in any order, and cells in columns
with other names count for nothing. Cells are read from left to right. The first one that repeats
a column, or that has to be a number and is none, is at fault; after that, the first column that
is missing.

A number that starts with `0x` is hexadecimal.
-/

namespace TransferDesk.Sheet

open TransferDesk.Text (IntegerFault readInt32)

/-- The columns that are read. -/
inductive Column where
  | accountId
  | customerId
  | customerName
  | customerEmail
  | kind
  | balance
  | currency
deriving DecidableEq, Repr

/-- The name of a column in a header. -/
def Column.name : Column → String
  | accountId => "account_id"
  | customerId => "customer_id"
  | customerName => "customer_name"
  | customerEmail => "customer_email"
  | kind => "account_type"
  | balance => "balance"
  | currency => "currency"

/-- All columns, in the order in which missing ones are noticed. -/
def Column.all : List Column :=
  [accountId, customerId, customerName, customerEmail, kind, balance, currency]

/-- The column with a given name. -/
def Column.ofName? (name : List Char) : Option Column :=
  all.find? (·.name.toList = name)

/-- Why the cells of a record are no row. -/
inductive CellFault where
  /-- The cell, counted from zero, has to be a number. -/
  | badNumber (cell : Nat) (fault : IntegerFault)
  | repeated (column : Column)
  | missing (column : Column)
deriving DecidableEq, Repr

/-- The wording of a fault in the cells. -/
def CellFault.message : CellFault → String
  | badNumber cell fault => "field " ++ Text.integerText cell ++ ": " ++ fault.message
  | repeated column => "duplicate field \x60" ++ column.name ++ "\x60"
  | missing column => "missing field \x60" ++ column.name ++ "\x60"

/-- The cells that have been read so far. -/
structure Draft where
  accountId : Option AccountId := none
  customerId : Option Int32 := none
  customerName : Option String := none
  customerEmail : Option String := none
  kind : Option String := none
  balance : Option String := none
  currency : Option String := none
deriving DecidableEq, Repr

/-- Reads the number in a cell. -/
def readNumber (cell : Nat) (text : List Char) : Except CellFault Int32 :=
  let number :=
    match text with
    | '0' :: 'x' :: digits => readInt32 16 digits
    | text => readInt32 10 text
  number.mapError (.badNumber cell)

namespace Draft

/-- Whether the cell of a column has been read. -/
def has (d : Draft) : Column → Bool
  | .accountId => d.accountId.isSome
  | .customerId => d.customerId.isSome
  | .customerName => d.customerName.isSome
  | .customerEmail => d.customerEmail.isSome
  | .kind => d.kind.isSome
  | .balance => d.balance.isSome
  | .currency => d.currency.isSome

/-- Reads the cell of a column, wherever it was empty before. -/
def fill (d : Draft) (cell : Nat) (text : List Char) : Column → Except CellFault Draft
  | .accountId => (readNumber cell text).map fun n => { d with accountId := some n }
  | .customerId => (readNumber cell text).map fun n => { d with customerId := some n }
  | .customerName => .ok { d with customerName := some (String.ofList text) }
  | .customerEmail => .ok { d with customerEmail := some (String.ofList text) }
  | .kind => .ok { d with kind := some (String.ofList text) }
  | .balance => .ok { d with balance := some (String.ofList text) }
  | .currency => .ok { d with currency := some (String.ofList text) }

/-- Reads cells under their header, the first of which has the given number. -/
def fillAll (d : Draft) (cell : Nat) : List (List Char × List Char) → Except CellFault Draft
  | [] => .ok d
  | (name, text) :: cells =>
    match Column.ofName? name with
    | none => d.fillAll (cell + 1) cells
    | some column =>
      if d.has column then .error (.repeated column)
      else
        match d.fill cell text column with
        | .error fault => .error fault
        | .ok d => d.fillAll (cell + 1) cells

/-- The row, if no column is missing. -/
def toRow (d : Draft) : Except CellFault Row :=
  match d with
  | ⟨some accountId, some customerId, some customerName, some customerEmail, some kind,
      some balance, some currency⟩ =>
    .ok { accountId, customerId, customerName, customerEmail, kind, balance, currency }
  | d => .error (.missing ((Column.all.find? (!d.has ·)).getD .accountId))

end Draft

/-- The row that cells make under a header. -/
def Row.ofCells (header cells : List (List Char)) : Except CellFault Row :=
  match ({} : Draft).fillAll 0 (header.zip cells) with
  | .error fault => .error fault
  | .ok draft => draft.toRow

end TransferDesk.Sheet
