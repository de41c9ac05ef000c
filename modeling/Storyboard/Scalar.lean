import Storyboard.Decimal

namespace Storyboard

/-- What a scalar stands for. -/
inductive Exact where
  | nan
  | infinite (negative : Bool)
  | finite (value : Rat)
  deriving DecidableEq

namespace Exact

/-- Strictly below; false when either side is not a number. -/
def lt : Exact → Exact → Bool
  | .nan, _ => false
  | _, .nan => false
  | .infinite a, .infinite b => a && !b
  | .infinite a, .finite _ => a
  | .finite _, .infinite b => !b
  | .finite p, .finite q => decide (p < q)

/-- The same number; false when either side is not a number. -/
def eq : Exact → Exact → Bool
  | .nan, _ => false
  | _, .nan => false
  | .infinite a, .infinite b => a == b
  | .finite p, .finite q => decide (p = q)
  | _, _ => false

/-- At most; false when either side is not a number. -/
def le (a b : Exact) : Bool := a.lt b || a.eq b

theorem lt_irrefl (a : Exact) : a.lt a = false := by
  cases a with
  | nan => rfl
  | infinite n => cases n <;> rfl
  | finite q => exact decide_eq_false Rat.lt_irrefl

theorem eq_refl {a : Exact} (h : a ≠ .nan) : a.eq a = true := by
  cases a with
  | nan => exact absurd rfl h
  | infinite n => simp [eq]
  | finite q => simp [eq]

end Exact

/-- An arithmetic. Operations may round, and leave the range, in their own way. A scalar is compared,
rounded and tested through its exact reading, so order and rounding are the same for all. -/
class Scalar (R : Type) where
  /-- What the scalar stands for. -/
  exact : R → Exact
  /-- Whether the scalar is written with a minus sign; zero may be. -/
  negative : R → Bool
  /-- The scalar that a decimal is read as. -/
  ofDecimal : Decimal → R
  /-- The nearest scalar to a rational, if it is within the range. -/
  ofRat? : Rat → Option R
  /-- The scalar that is not a number. -/
  nan? : Option R
  /-- The infinite scalar of a sign. -/
  infinite? : Bool → Option R
  /-- The shortest decimal that is read as this scalar, its sign left out. -/
  shortest : R → Decimal
  add : R → R → R
  sub : R → R → R
  mul : R → R → R
  div : R → R → R
  neg : R → R

/-- The circular functions and the powers of two, for an arithmetic that has them. -/
class Trig (R : Type) where
  pi : R
  sin : R → R
  cos : R → R
  exp2 : R → R

namespace Scalar

variable {R : Type} [Scalar R]

/-- A decimal constant `coefficient * 10 ^ exponent`. -/
def const (coefficient : Nat) (exponent : Int) : R := ofDecimal ⟨false, coefficient, exponent⟩

/-- The shortest text that is read as this scalar. -/
def text (x : R) : String :=
  match exact x with
  | .nan => "nan"
  | .infinite s => if s then "-inf" else "inf"
  | .finite _ => String.ofList ({ shortest x with negative := negative x }.render Decimal.full)

/-- The text with six significant digits at most. -/
def briefText (x : R) : String :=
  match exact x with
  | .nan => "nan"
  | .infinite s => if s then "-inf" else "inf"
  | .finite q => String.ofList ((Decimal.significant 6 (negative x) q).render Decimal.brief)

end Scalar

end Storyboard
