import TransferDesk.Decimal.Basic
/-!
# Money

Balances and amounts of money are decimals with `moneyPlaces` places. `Decimal.asMoney` brings a
number to them, and does so exactly: it is for numbers that do not exceed money. A number too
large for its places to fit beside it in 96 bits keeps as many as do.
-/

namespace TransferDesk

/-- The places after the point to which money is kept. -/
def moneyPlaces : Nat := 2

namespace Decimal

/-- Whether a number needs more places than money has. -/
def ExceedsMoney (d : Decimal) : Prop :=
  moneyPlaces < d.normalize.scale

instance (d : Decimal) : Decidable d.ExceedsMoney :=
  inferInstanceAs (Decidable (moneyPlaces < d.normalize.scale))

/-- A number with the places of money, or as many of them as fit. -/
def asMoney (d : Decimal) : Decimal :=
  d.normalize.extend moneyPlaces

end Decimal

end TransferDesk
