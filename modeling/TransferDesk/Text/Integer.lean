/-!
# Integers in a bounded range

`readInteger` reads an optionally signed numeral in some base and says why a text is refused. It
goes from left to right and stops at the first fault, so a numeral that is out of range before its
first bad character is out of range. `integerChars` writes the decimal numeral of an integer.
-/

namespace TransferDesk.Text

/-- Why a text is no integer of the wanted range. -/
inductive IntegerFault where
  | empty
  | invalidDigit
  | tooLarge
  | tooSmall
deriving DecidableEq, Repr

/-- The wording of a fault. -/
def IntegerFault.message : IntegerFault → String
  | .empty => "cannot parse integer from empty string"
  | .invalidDigit => "invalid digit found in string"
  | .tooLarge => "number too large to fit in target type"
  | .tooSmall => "number too small to fit in target type"

/-- The value of an ASCII digit or letter as a digit of the given base. Letters count from ten, in
either case. -/
def digitValue? (base : Nat) (c : Char) : Option Nat :=
  let value :=
    if '0' ≤ c ∧ c ≤ '9' then c.toNat - 48
    else if 'a' ≤ c ∧ c ≤ 'z' then c.toNat - 87
    else if 'A' ≤ c ∧ c ≤ 'Z' then c.toNat - 55
    else base
  if value < base then some value else none

/-- Appends digits to `value`, counted down instead of up if `negative`. Every value on the way
has to stay between `lo` and `hi`. -/
def readDigits (base : Nat) (lo hi : Int) (negative : Bool) (value : Int) :
    List Char → Except IntegerFault Int
  | [] => .ok value
  | c :: cs =>
    match digitValue? base c with
    | none => .error .invalidDigit
    | some d =>
      let next := value * base + (if negative then -(d : Int) else d)
      if hi < next then .error .tooLarge
      else if next < lo then .error .tooSmall
      else readDigits base lo hi negative next cs

/-- Reads an integer between `lo` and `hi` in the given base. One sign may stand in front of the
digits: a plus always, a minus only if the range has negative members. -/
def readInteger (base : Nat) (lo hi : Int) : List Char → Except IntegerFault Int
  | [] => .error .empty
  | '+' :: [] => .error .invalidDigit
  | '-' :: [] => .error .invalidDigit
  | '+' :: cs => readDigits base lo hi false 0 cs
  | '-' :: cs => if lo < 0 then readDigits base lo hi true 0 cs else .error .invalidDigit
  | cs => readDigits base lo hi false 0 cs

/-- Reads a signed 32-bit integer in the given base. -/
def readInt32 (base : Nat) (s : List Char) : Except IntegerFault Int32 :=
  (readInteger base (-2147483648) 2147483647 s).map Int32.ofInt

/-- The decimal numeral of an integer, with a minus in front of a negative one. -/
def integerChars (n : Int) : List Char :=
  if n < 0 then '-' :: Nat.toDigits 10 n.natAbs else Nat.toDigits 10 n.natAbs

/-- The decimal numeral of an integer, with a minus in front of a negative one. -/
def integerText (n : Int) : String :=
  String.ofList (integerChars n)

end TransferDesk.Text
