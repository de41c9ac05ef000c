import Storyboard.Number

namespace Storyboard

/-- The map of `(x, y)` to `(a x + c y + e, b x + d y + f)`. -/
structure Affine (R : Type) where
  a : Number R
  b : Number R
  c : Number R
  d : Number R
  e : Number R
  f : Number R

namespace Affine

variable {R : Type} [Scalar R]

def zero : Number R := .real (Scalar.const 0 0)

def one : Number R := .real (Scalar.const 1 0)

def identity : Affine R := ⟨one, zero, zero, one, zero, zero⟩

def dot (p q r s : Number R) : Outcome (Number R) := do
  let left ← p.mul q
  let right ← r.mul s
  left.add right

/-- The map `m` after the map `n`. -/
def multiply (m n : Affine R) : Outcome (Affine R) := do
  let a ← dot m.a n.a m.c n.b
  let b ← dot m.b n.a m.d n.b
  let c ← dot m.a n.c m.c n.d
  let d ← dot m.b n.c m.d n.d
  let e ← (← dot m.a n.e m.c n.f).add m.e
  let f ← (← dot m.b n.e m.d n.f).add m.f
  return ⟨a, b, c, d, e, f⟩

def translate (m : Affine R) (x y : Number R) : Outcome (Affine R) :=
  m.multiply { identity with e := x, f := y }

def scale (m : Affine R) (x y : Number R) : Outcome (Affine R) :=
  m.multiply { identity with a := x, d := y }

def apply (m : Affine R) (x y : Number R) : Outcome (Number R × Number R) := do
  let u ← (← dot m.a x m.c y).add m.e
  let v ← (← dot m.b x m.d y).add m.f
  return (u, v)

def entries (m : Affine R) : List (Number R) := [m.a, m.b, m.c, m.d, m.e, m.f]

/-- The map with given entries, those that are missing being those of the identity. -/
def ofEntries (entries : List (Number R)) : Affine R where
  a := entries[0]?.getD one
  b := entries[1]?.getD zero
  c := entries[2]?.getD zero
  d := entries[3]?.getD one
  e := entries[4]?.getD zero
  f := entries[5]?.getD zero

variable [Trig R]

def radians (degrees : Number R) : Outcome R := do
  let x ← degrees.toReal
  return Scalar.mul x (Scalar.div Trig.pi (Scalar.const 180 0))

/-- A circular function, which has no value at an infinity. -/
def circular (f : R → R) (x : R) : Outcome R :=
  match Scalar.exact x with
  | .infinite _ => numericFault .value
  | _ => .ok (f x)

def rotate (m : Affine R) (degrees : Number R) : Outcome (Affine R) := do
  let angle ← radians degrees
  let cos ← circular Trig.cos angle
  let sin ← circular Trig.sin angle
  m.multiply { identity with
    a := .real cos, b := .real sin, c := .real (Scalar.neg sin), d := .real cos }

end Affine

end Storyboard
