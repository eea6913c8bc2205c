import TransferDesk.Ledger
import TransferDesk.Sheet.Column
import TransferDesk.Sheet.Record
import TransferDesk.Text.Blank
import TransferDesk.Text.Utf8
/-!
# Loading a seed sheet

The accounts of a ledger are loaded from a seed file, which is a sheet. The first record of a seed
sheet is its header and every further record an account. Blanks around a
cell are no part of it. The accounts come in the order of the sheet, and the first record at fault
makes the whole sheet a fault: later ones are not looked at. A record is checked in this order: the
number of its fields, its encoding, its cells, its row.
-/

namespace TransferDesk.Sheet

/-- Why a sheet cannot be loaded. -/
inductive SheetFault where
  /-- A field, counted from zero, is not UTF-8 from a byte on. -/
  | encoding (place : Place) (field byte : Nat)
  /-- A record has not as many fields as the header. -/
  | fieldCount (place : Place) (found expected : Nat)
  | cells (place : Place) (fault : CellFault)
  | row (place : Place) (fault : RowFault)
deriving DecidableEq, Repr

namespace SheetFault

open TransferDesk.Text (integerText)

/-- The line that a fault names: the one on which the record before the one at fault ended. -/
def line : SheetFault → Nat
  | encoding place _ _ => place.line
  | fieldCount place _ _ => place.line
  | cells place _ => place.line
  | row place _ => place.line

/-- The wording of a place. -/
def placeText (place : Place) : String :=
  "record " ++ integerText place.record ++ " (line: " ++ integerText place.line ++ ", byte: " ++
    integerText place.byte ++ ")"

/-- The wording of a fault. -/
def detail : SheetFault → String
  | encoding place field byte =>
    "CSV parse error: record " ++ integerText place.record ++ " (line " ++
      integerText place.line ++ ", field: " ++ integerText field ++ ", byte: " ++
      integerText place.byte ++ "): invalid utf-8: invalid UTF-8 in field " ++
      integerText field ++ " near byte index " ++ integerText byte
  | fieldCount place found expected =>
    "CSV error: " ++ placeText place ++ ": found record with " ++ integerText found ++
      " fields, but the previous record has " ++ integerText expected ++ " fields"
  | cells place fault => "CSV deserialize error: " ++ placeText place ++ ": " ++ fault.message
  | row _ fault => fault.message

/-- The fault of a sheet as a fault of the whole library. -/
def toFault (f : SheetFault) : Fault :=
  .malformedSheet (some f.line) f.detail

end SheetFault

/-- Whether a byte is an ASCII blank other than a vertical tab. -/
def isBlankByte (b : UInt8) : Bool :=
  b = 32 ∨ b = 9 ∨ b = 10 ∨ b = 12 ∨ b = 13

/-- The bytes without the blanks at both their ends. -/
def trimBytes (bytes : List UInt8) : List UInt8 :=
  ((bytes.dropWhile isBlankByte).reverse.dropWhile isBlankByte).reverse

/-- The texts of fields, or the fault of the first that is not UTF-8. -/
def decodeFields (place : Place) (field : Nat) :
    List (List UInt8) → Except SheetFault (List (List Char))
  | [] => .ok []
  | bytes :: fields =>
    match Text.Utf8.validUpTo? bytes with
    | some byte => .error (.encoding place field byte)
    | none =>
      match decodeFields place (field + 1) fields with
      | .error fault => .error fault
      | .ok texts => .ok (Text.trim (Text.Utf8.decodeLossy bytes) :: texts)

/-- The account in a record. -/
def readAccount (header : List (List Char)) (r : Record) : Except SheetFault Account :=
  if r.fields.length ≠ header.length then
    .error (.fieldCount r.place r.fields.length header.length)
  else
    match decodeFields r.place 0 (r.fields.map trimBytes) with
    | .error fault => .error fault
    | .ok texts =>
      match Row.ofCells header texts with
      | .error fault => .error (.cells r.place fault)
      | .ok row => row.toAccount.mapError (.row r.place)

/-- The accounts in records, up to the first that is at fault. -/
def readAccounts (header : List (List Char)) : List Record → Except SheetFault (List Account)
  | [] => .ok []
  | r :: rs =>
    match readAccount header r with
    | .error fault => .error fault
    | .ok account =>
      match readAccounts header rs with
      | .error fault => .error fault
      | .ok accounts => .ok (account :: accounts)

/-- The accounts of a sheet. -/
def accounts (sheet : List UInt8) : Except SheetFault (List Account) :=
  match records sheet with
  | [] => .ok []
  | first :: rest =>
    match decodeFields first.place 0 first.fields with
    | .error fault => .error fault
    | .ok header => readAccounts header rest

/-- The ledger of the accounts of a sheet. -/
def ledger (sheet : List UInt8) : Except Fault Ledger :=
  match accounts sheet with
  | .error fault => .error fault.toFault
  | .ok accounts => Ledger.ofAccounts accounts

end TransferDesk.Sheet
