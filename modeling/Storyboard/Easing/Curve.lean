import Storyboard.Easing
import Storyboard.Settings

namespace Storyboard.Easing

variable {R : Type} [Scalar R]

def whole (n : Int) : Number R := .int n

def decimal (coefficient : Nat) (exponent : Int) : Number R :=
  .real (Scalar.const coefficient exponent)

def magnitude (n : Number R) : Number R := if n.lt (.int 0) then n.neg else n

/-- The coordinate of a curve from 0 to 1 with inner control points `p1` and `p2`. -/
def bezierAt (u p1 p2 : Number R) : Outcome (Number R) := do
  let inv ← (whole 1).sub u
  let a ← (whole 3).mul inv
  let first ← (← (← a.mul inv).mul u).mul p1
  let second ← (← (← a.mul u).mul u).mul p2
  let third ← (← u.mul u).mul u
  (← first.add second).add third

/-- The derivative of `bezierAt` in its parameter. -/
def bezierSlope (u p1 p2 : Number R) : Outcome (Number R) := do
  let inv ← (whole 1).sub u
  let first ← (← (← (whole 3).mul inv).mul inv).mul p1
  let second ← (← (← (whole 6).mul inv).mul u).mul (← p2.sub p1)
  let third ← (← (← (whole 3).mul u).mul u).mul (← (whole 1).sub p2)
  (← first.add second).add third

/-- Newton's method for the parameter at which the curve is at `t`, from `u` on. It stops where the
error or the slope is small, or after a number of steps. -/
def solve (error t x1 x2 : Number R) : Nat → Number R → Outcome (Number R)
  | 0, u => .ok u
  | steps + 1, u => do
    let residual ← (← bezierAt u x1 x2).sub t
    if (magnitude residual).lt error then return u
    else
      let slope ← bezierSlope u x1 x2
      if (magnitude slope).lt error then return u
      else solve error t x1 x2 steps (← u.sub (← residual.div slope))

/-- The height of a curve at horizontal position `t`. -/
def bezierHeight (steps : Nat) (error t x1 y1 x2 y2 : Number R) : Outcome (Number R) := do
  if t.le (.int 0) then return decimal 0 0
  else if (Number.int 1).le t then return decimal 1 0
  else bezierAt (← solve error t x1 x2 steps t) y1 y2

def ratio (num : Nat) (numExponent : Int) (den : Nat) (denExponent : Int) : R :=
  Scalar.div (Scalar.const num numExponent) (Scalar.const den denExponent)

/-- One arc of the bounce: `7.5625 * t * t` above a floor. -/
def bounceArc (t : Number R) (floor : Option R) : Outcome (Number R) := do
  let height ← (← (decimal 75625 (-4)).mul t).mul t
  match floor with
  | none => return height
  | some f => height.add (.real f)

/-- Four arcs of falling height. -/
def bounceAt (t : Number R) : Outcome (Number R) := do
  if t.lt (.real (ratio 1 0 275 (-2))) then bounceArc t none
  else if t.lt (.real (ratio 2 0 275 (-2))) then
    bounceArc (← t.sub (.real (ratio 15 (-1) 275 (-2)))) (some (Scalar.const 75 (-2)))
  else if t.lt (.real (ratio 25 (-1) 275 (-2))) then
    bounceArc (← t.sub (.real (ratio 225 (-2) 275 (-2)))) (some (Scalar.const 9375 (-4)))
  else bounceArc (← t.sub (.real (ratio 2625 (-3) 275 (-2)))) (some (Scalar.const 984375 (-6)))

variable [Trig R]

/-- The power of two of a number. -/
def exp2 (n : Number R) : Outcome (Number R) := do
  let x ← n.toReal
  let y := Trig.exp2 x
  match Scalar.exact x, Scalar.exact y with
  | .finite _, .infinite _ => numericFault .overflow
  | _, _ => return .real y

def sine (n : Number R) : Outcome (Number R) := do
  let x ← n.toReal
  match Scalar.exact x with
  | .infinite _ => numericFault .value
  | _ => return .real (Trig.sin x)

/-- An oscillation that grows towards the end. -/
def elasticAt (t : Number R) : Outcome (Number R) := do
  if t.eq (.int 0) || t.eq (.int 1) then return t
  else
    let growth ← exp2 (← (whole 10).mul (← t.sub (whole 1)))
    let phase ← (← (← t.sub (decimal 11 (-1))).mul (whole 5)).mul (.real Trig.pi)
    growth.neg.mul (← sine phase)

def apply (settings : Settings R) (e : Easing R) (t : Number R) : Outcome (Number R) :=
  match e with
  | linear => .ok t
  | easeIn => t.mul t
  | easeOut => do t.mul (← (whole 2).sub t)
  | easeInOut => do
    if t.lt (decimal 5 (-1)) then (← (whole 2).mul t).mul t
    else (whole (-1)).add (← (← (whole 4).sub (← (whole 2).mul t)).mul t)
  | bounce => bounceAt t
  | elastic => elasticAt t
  | bezier x1 y1 x2 y2 =>
    bezierHeight settings.bezierSteps.toNat settings.bezierError t (.real x1) (.real y1) (.real x2)
      (.real y2)

end Storyboard.Easing
