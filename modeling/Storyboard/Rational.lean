import Storyboard.Scalar

namespace Storyboard

/-- Rationals have no infinities, and nothing is ever rounded. -/
instance : Scalar Rat where
  exact := .finite
  negative q := decide (q < 0)
  ofDecimal := Decimal.value
  ofRat? := some
  nan? := none
  infinite? _ := none
  shortest q := Decimal.significant 17 false q
  add x y := x + y
  sub x y := x - y
  mul x y := x * y
  div x y := x / y
  neg x := -x

end Storyboard
