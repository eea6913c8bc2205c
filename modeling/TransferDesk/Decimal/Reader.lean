import TransferDesk.Decimal.Arithmetic
import TransferDesk.Text.Integer
/-!
# Reading decimals

Plain notation is an optional sign and digits with at most one point; underscores may stand anywhere
after the first digit. The places written are the scale. Where a fraction has more digits than 28
places or 96 bits can hold, the first digit left out rounds the last one kept, a five upwards, and
the digits after it count for nothing.

Underscores between the last digit kept and the first one left out are passed over if the
coefficient is long. If it is short, an underscore behind the 28th place ends the number: nothing is
rounded, and all digits after it count for nothing.

A zero in plain notation has no minus, whatever is written.

Scientific notation is plain notation, an `e` in either case and a whole exponent. It is tried only
on texts that are not in plain notation. A number below zero whose exponent leaves nothing of it is
a zero with a minus.
-/

namespace TransferDesk.Decimal

open TransferDesk.Text (digitValue? readInteger)

/-- The digits read so far. -/
structure Reading where
  /-- The digits without the point. -/
  coeff : Nat
  /-- How many of them stand after the point. -/
  places : Nat
  /-- Whether the point has been read. -/
  pointSeen : Bool
  /-- Whether a digit has been read. -/
  digitSeen : Bool
deriving DecidableEq, Repr

/-- Ends a fraction before the digit `d`, for which there is no room, and rounds by it. If the
rounded coefficient has no room either, one place more is given up. -/
def Reading.cutAt (r : Reading) (d : Nat) : Option (Nat × Nat) :=
  if d < 5 then some (r.coeff, r.places)
  else if r.coeff + 1 < Nat.pow 2 96 then some (r.coeff + 1, r.places)
  else if r.places = 0 then none
  else some (roundHalfUp (r.coeff + 1) 10, r.places - 1)

/-- The least coefficient that is long when one more digit is put behind it. -/
def longFrom : Nat := 1844674407370954906

/-- Whether an underscore ends the number: all places are taken and the coefficient is short. -/
def Reading.endsAtUnderscore (r : Reading) : Bool :=
  r.places = 28 ∧ r.coeff / 10 < longFrom

/-- Whether characters may stand where digits count for nothing. -/
def onlyDigits (cs : List Char) : Bool :=
  cs.all fun c => c = '_' ∨ (digitValue? 10 c).isSome

/-- Reads the characters after the sign to a coefficient and its places. -/
def readMagnitude (r : Reading) : List Char → Option (Nat × Nat)
  | [] => if r.digitSeen then some (r.coeff, r.places) else none
  | c :: cs =>
    if c = '_' then
      if ¬ r.digitSeen then none
      else if r.endsAtUnderscore then
        if onlyDigits cs then some (r.coeff, r.places) else none
      else readMagnitude r cs
    else if c = '.' then
      if r.pointSeen then none else readMagnitude { r with pointSeen := true } cs
    else
      match digitValue? 10 c with
      | none => none
      | some d =>
        let coeff := r.coeff * 10 + d
        if r.pointSeen then
          if r.places < 28 ∧ coeff < Nat.pow 2 96 then
            readMagnitude ⟨coeff, r.places + 1, true, true⟩ cs
          else if onlyDigits cs then r.cutAt d
          else none
        else if coeff < Nat.pow 2 96 then readMagnitude ⟨coeff, 0, false, true⟩ cs
        else none

/-- Reads plain notation. -/
def readPlain (s : List Char) : Option Decimal :=
  let (negative, cs) :=
    match s with
    | '-' :: cs => (true, cs)
    | '+' :: cs => (false, cs)
    | cs => (false, cs)
  match readMagnitude ⟨0, 0, false, false⟩ cs with
  | none => none
  | some (n, places) => ofParts? (if negative then -(n : Int) else n) places

/-- The number times `10 ^ -e`. If that takes more than 28 places, the number is first rounded to as
many as leave room for `e` more, a half away from zero. A minus stays, also if nothing else does. -/
def shiftDown? (d : Decimal) (e : Nat) : Option Decimal :=
  if 28 < e then none
  else if d.scale + e ≤ 28 then ofSigned? d.negative d.magnitude (d.scale + e)
  else ofSigned? d.negative (roundHalfUp d.magnitude (Nat.pow 10 (d.scale + e - 28))) 28

/-- The number times `10 ^ e`: with fewer places if it has as many, and otherwise with none. -/
def shiftUp? (d : Decimal) (e : Nat) : Option Decimal :=
  if e ≤ d.scale then ofParts? d.coeff (d.scale - e)
  else if 28 < e then none
  else ofParts? (d.coeff * Int.pow 10 (e - d.scale)) 0

/-- Reads an exponent of up to 32 bits, without a minus. -/
def readExponent (s : List Char) : Option Nat :=
  ((readInteger 10 0 4294967295 s).toOption).map Int.toNat

/-- Reads scientific notation. -/
def readScientific (s : List Char) : Option Decimal :=
  let isMark (c : Char) : Bool := c = 'e' ∨ c = 'E'
  match s.dropWhile (!isMark ·) with
  | [] => none
  | _ :: exponent =>
    match readPlain (s.takeWhile (!isMark ·)) with
    | none => none
    | some base =>
      match exponent with
      | '-' :: digits => (readExponent digits).bind base.shiftDown?
      | digits => (readExponent digits).bind base.shiftUp?

/-- Reads a decimal in plain or else in scientific notation. -/
def ofChars? (s : List Char) : Option Decimal :=
  readPlain s <|> readScientific s

/-- Reads a decimal in plain or else in scientific notation. -/
def ofText? (s : String) : Option Decimal :=
  ofChars? s.toList

end TransferDesk.Decimal
