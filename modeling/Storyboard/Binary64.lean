import Storyboard.Scalar

namespace Storyboard.Binary64

structure Word where
  negative : Bool
  exponent : Nat
  fraction : Nat
  deriving DecidableEq

def word (x : Float) : Word :=
  let b := x.toBits.toNat
  ⟨b / Nat.pow 2 63 == 1, b / Nat.pow 2 52 % Nat.pow 2 11, b % Nat.pow 2 52⟩

def ofWord (w : Word) : Float :=
  .ofBits (UInt64.ofNat
    ((if w.negative then Nat.pow 2 63 else 0) + w.exponent * Nat.pow 2 52 + w.fraction))

/-- The coefficient `m` of `m * 2 ^ q`. -/
def Word.coefficient (w : Word) : Nat :=
  if w.exponent == 0 then w.fraction else Nat.pow 2 52 + w.fraction

/-- The power `q` of `m * 2 ^ q`. -/
def Word.power (w : Word) : Int :=
  if w.exponent == 0 then -1074 else (w.exponent : Int) - 1075

def dyadic (m : Nat) (q : Int) : Rat :=
  if 0 ≤ q then ((m * Nat.pow 2 q.toNat : Nat) : Rat) else mkRat m (Nat.pow 2 (-q).toNat)

def Word.magnitude (w : Word) : Rat := dyadic w.coefficient w.power

def exact (x : Float) : Exact :=
  let w := word x
  if w.exponent == 2047 then
    if w.fraction == 0 then .infinite w.negative else .nan
  else .finite (if w.negative then -w.magnitude else w.magnitude)

def infinite (negative : Bool) : Float := ofWord ⟨negative, 2047, 0⟩

/-- The power `p` with `2 ^ p ≤ num / den < 2 ^ (p + 1)`, for positive arguments. -/
def binaryLeading (num den : Nat) : Int :=
  let p : Int := (num.log2 : Int) - den.log2
  let below :=
    if 0 ≤ p then num < den * Nat.pow 2 p.toNat else num * Nat.pow 2 (-p).toNat < den
  if below then p - 1 else p

/-- The magnitude `num / den` rounded to the nearest number, a half to the even coefficient. -/
def nearest (negative : Bool) (num den : Nat) : Float :=
  if num == 0 then ofWord ⟨negative, 0, 0⟩
  else
    let q := max (binaryLeading num den - 52) (-1074)
    let m := if 0 ≤ q then Decimal.roundDiv num (den * Nat.pow 2 q.toNat)
      else Decimal.roundDiv (num * Nat.pow 2 (-q).toNat) den
    let (m, q) := if m == Nat.pow 2 53 then (Nat.pow 2 52, q + 1) else (m, q)
    if m < Nat.pow 2 52 then ofWord ⟨negative, 0, m⟩
    else
      let e := (q + 1075).toNat
      if 2047 ≤ e then infinite negative else ofWord ⟨negative, e, m - Nat.pow 2 52⟩

/-- The number that a decimal is read as. Decimals far outside the range are not expanded. -/
def ofDecimal (d : Decimal) : Float :=
  if d.coefficient == 0 || d.leading < -330 then nearest d.negative 0 1
  else if 310 < d.leading then infinite d.negative
  else
    let d := d.normal
    if 0 ≤ d.exponent then nearest d.negative (d.coefficient * Nat.pow 10 d.exponent.toNat) 1
    else nearest d.negative d.coefficient (Nat.pow 10 (-d.exponent).toNat)

/-- The nearest number to a rational, if that is finite. -/
def ofRat? (r : Rat) : Option Float :=
  let x := nearest (r.num < 0) r.num.natAbs r.den
  match exact x with
  | .finite _ => some x
  | _ => none

/-- The points of the grid of multiples of `10 ^ k` next to `4 * value / scale`-style quotients:
the coefficient on the coarsest grid that lies between `low` and `high`, all three numbers being
quarters of a unit `num / den`. -/
def gridPoint? (closed : Bool) (low mid high : Nat) (num den : Nat) (k : Int) : Option Nat :=
  let stepNum := if 0 ≤ k then 4 * Nat.pow 10 k.toNat * den else 4 * den
  let scale := if 0 ≤ k then num else num * Nat.pow 10 (-k).toNat
  let inside (c : Nat) : Bool :=
    let p := c * stepNum
    if closed then low * scale ≤ p && p ≤ high * scale else low * scale < p && p < high * scale
  let c := mid * scale / stepNum
  let lowIn := inside c && c != 0
  let highIn := inside (c + 1)
  if lowIn && highIn then
    let below := mid * scale - c * stepNum
    let above := (c + 1) * stepNum - mid * scale
    some (if below < above then c else if above < below then c + 1 else c + c % 2)
  else if lowIn then some c
  else if highIn then some (c + 1)
  else none

def searchGrid (closed : Bool) (low mid high num den : Nat) : Nat → Int → Decimal
  | 0, k => ⟨false, 0, k⟩
  | fuel + 1, k =>
    match gridPoint? closed low mid high num den k with
    | some c => ⟨false, c, k⟩
    | none => searchGrid closed low mid high num den fuel (k - 1)

/-- The shortest decimal between the numbers next to this one, nearest to it of those. -/
def shortest (x : Float) : Decimal :=
  let w := word x
  let m := w.coefficient
  let q := w.power
  if m == 0 then ⟨false, 0, 0⟩
  else
    let low := if w.fraction == 0 && 1 < w.exponent then 4 * m - 1 else 4 * m - 2
    let num := if 0 ≤ q then Nat.pow 2 q.toNat else 1
    let den := if 0 ≤ q then 1 else Nat.pow 2 (-q).toNat
    let top := ((((m.log2 : Int) + 1 + q) * 30103).fdiv 100000) + 1
    searchGrid (m % 2 == 0) low (4 * m) (4 * m + 2) num den 40 top

end Storyboard.Binary64

namespace Storyboard

instance : Scalar Float where
  exact := Binary64.exact
  negative x := (Binary64.word x).negative
  ofDecimal := Binary64.ofDecimal
  ofRat? := Binary64.ofRat?
  nan? := some (Binary64.ofWord ⟨false, 2047, Nat.pow 2 51⟩)
  infinite? s := some (Binary64.infinite s)
  shortest := Binary64.shortest
  add x y := x + y
  sub x y := x - y
  mul x y := x * y
  div x y := x / y
  neg x := -x

instance : Trig Float where
  pi := 3.141592653589793
  sin := Float.sin
  cos := Float.cos
  exp2 x := Float.pow 2 x

end Storyboard
