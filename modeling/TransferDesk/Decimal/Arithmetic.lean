import TransferDesk.Decimal.Basic
/-!
# Sums and differences of decimals

The exact result is taken at the larger of the two scales. If its coefficient does not fit, places
are given up one by one until the result, rounded half to even, does. There is no result if it does
not fit without places either. A zero has no say: the sum with it is the other number, at the other
number's own scale.
-/

namespace TransferDesk.Decimal

/-- The quotient of two naturals, rounded to the nearest natural and a half to the even one. -/
def roundHalfEven (n d : Nat) : Nat :=
  let q := n / d
  let r := n % d
  if d < 2 * r ∨ (2 * r = d ∧ q % 2 = 1) then q + 1 else q

/-- The quotient of two naturals, rounded to the nearest natural and a half upwards. -/
def roundHalfUp (n d : Nat) : Nat :=
  (2 * n + d) / (2 * d)

/-- Applies a rounding of naturals to the magnitude of an integer and keeps its sign. -/
def roundMagnitude (round : Nat → Nat) (c : Int) : Int :=
  if c < 0 then -(round c.natAbs : Int) else round c.natAbs

/-- The number `coeff / 10 ^ (dropped + kept)` at the largest scale up to `kept` at which it fits,
rounded half to even. -/
def fit? (coeff : Int) (dropped : Nat) : Nat → Option Decimal
  | 0 => ofParts? (roundMagnitude (roundHalfEven · (Nat.pow 10 dropped)) coeff) 0
  | kept + 1 =>
    match ofParts? (roundMagnitude (roundHalfEven · (Nat.pow 10 dropped)) coeff) (kept + 1) with
    | some d => some d
    | none => fit? coeff (dropped + 1) kept

/-- The coefficient of the number at a scale that is not below its own. -/
def coeffAt (d : Decimal) (scale : Nat) : Int :=
  d.coeff * Int.pow 10 (scale - d.scale)

/-- The number with the other sign. A zero stays as it is. -/
def negate (d : Decimal) : Decimal :=
  if d.magnitude = 0 then d else { d with negative := !d.negative }

/-- The sum, or `none` if it does not fit at any scale. -/
def add? (a b : Decimal) : Option Decimal :=
  if a.magnitude = 0 then some b
  else if b.magnitude = 0 then some a
  else
    let scale := max a.scale b.scale
    fit? (a.coeffAt scale + b.coeffAt scale) 0 scale

/-- The difference, or `none` if it does not fit at any scale. -/
def sub? (a b : Decimal) : Option Decimal :=
  a.add? b.negate

end TransferDesk.Decimal
