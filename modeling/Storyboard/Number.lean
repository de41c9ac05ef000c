import Storyboard.Scalar
import Storyboard.Fault

namespace Storyboard

/-- A whole number of any size, or a scalar. The two stay apart: sums, differences and products of
whole numbers are whole, and a quotient is always a scalar. -/
inductive Number (R : Type) where
  | int (n : Int)
  | real (x : R)
  deriving DecidableEq

/-- Refuses an operation on values. -/
def numericFault {α : Type} (cause : NumericFault) : Outcome α := .error (.numeric cause)

namespace Number

variable {R : Type} [Scalar R]

def exact : Number R → Exact
  | int n => .finite n
  | real x => Scalar.exact x

/-- Strictly below, in exact order; false where a side is not a number. -/
def lt (a b : Number R) : Bool := a.exact.lt b.exact

/-- At most, in exact order; false where a side is not a number. -/
def le (a b : Number R) : Bool := a.exact.le b.exact

/-- The same number; false where a side is not a number. -/
def eq (a b : Number R) : Bool := a.exact.eq b.exact

/-- Whether the number can be compared with others: all can but what is not a number. -/
def isOrdered (a : Number R) : Bool := a.eq a

def isZero (a : Number R) : Bool := a.eq (.int 0)

/-- The number as a scalar. A whole number may be beyond the range. -/
def toReal : Number R → Outcome R
  | int n =>
    match Scalar.ofRat? (R := R) n with
    | some x => .ok x
    | none => numericFault .overflow
  | real x => .ok x

/-- An operation that whole numbers keep whole. -/
def lift (onInts : Int → Int → Int) (onReals : R → R → R) : Number R → Number R → Outcome (Number R)
  | int m, int n => .ok (int (onInts m n))
  | a, b => do
    let x ← a.toReal
    let y ← b.toReal
    return real (onReals x y)

def add : Number R → Number R → Outcome (Number R) := lift (· + ·) Scalar.add

def sub : Number R → Number R → Outcome (Number R) := lift (· - ·) Scalar.sub

def mul : Number R → Number R → Outcome (Number R) := lift (· * ·) Scalar.mul

/-- The quotient, which is a scalar even for whole numbers. -/
def div : Number R → Number R → Outcome (Number R)
  | int m, int n =>
    if n == 0 then numericFault .zeroDivision
    else
      match Scalar.ofRat? (R := R) (mkRat (m * n.sign) n.natAbs) with
      | some x => .ok (real x)
      | none => numericFault .overflow
  | a, b => do
    let x ← a.toReal
    let y ← b.toReal
    if (Scalar.exact y).eq (.finite 0) then numericFault .zeroDivision
    else return real (Scalar.div x y)

def neg : Number R → Number R
  | int n => int (-n)
  | real x => real (Scalar.neg x)

/-- A whole part of a number, found by rounding its exact value. -/
def whole (round : Rat → Int) (a : Number R) : Outcome Int :=
  match a.exact with
  | .nan => numericFault .value
  | .infinite _ => numericFault .overflow
  | .finite q => .ok (round q)

def floor (a : Number R) : Outcome Int := a.whole Rat.floor

def ceil (a : Number R) : Outcome Int := a.whole Rat.ceil

def text : Number R → String
  | int n => toString n
  | real x => Scalar.text x

/-- A whole frame: the number rounded to the nearest one, a half upwards. -/
def roundFrame (a : Number R) : Outcome Int := do
  let shifted ← a.add (real (Scalar.const 5 (-1)))
  shifted.floor

theorem toReal_real (x : R) : toReal (real x) = .ok x := rfl

end Number

/-- A number, or a text in the place of one: a percentage, a time with its unit, a colour. -/
inductive Quantity (R : Type) where
  | number (n : Number R)
  | text (s : String)
  deriving DecidableEq

end Storyboard
