namespace Storyboard

/-- The number `± coefficient * 10 ^ exponent`; the sign of zero is kept. -/
structure Decimal where
  negative : Bool
  coefficient : Nat
  exponent : Int
  deriving DecidableEq, Repr, Inhabited

namespace Decimal

def tenPow (e : Int) : Rat :=
  if 0 ≤ e then ((Nat.pow 10 e.toNat : Nat) : Rat) else mkRat 1 (Nat.pow 10 (-e).toNat)

/-- The number without its sign. -/
def magnitude (d : Decimal) : Rat := (d.coefficient : Rat) * tenPow d.exponent

def value (d : Decimal) : Rat := if d.negative then -d.magnitude else d.magnitude

/-- The quotient rounded to the nearest whole number, a half to the even one. -/
def roundDiv (num den : Nat) : Nat :=
  let q := num / den
  let r := num % den
  if 2 * r < den then q else if den < 2 * r then q + 1 else q + q % 2

/-- The decimal digits of a number, most significant first. -/
def digits (n : Nat) : List Char := Nat.toDigits 10 n

def stripZeros : Nat → Nat → Int → Nat × Int
  | 0, c, e => (c, e)
  | fuel + 1, c, e => if c != 0 && c % 10 == 0 then stripZeros fuel (c / 10) (e + 1) else (c, e)

/-- The same number with no zero at the end of its coefficient. -/
def normal (d : Decimal) : Decimal :=
  let (c, e) := stripZeros (digits d.coefficient).length d.coefficient d.exponent
  { d with coefficient := c, exponent := if c == 0 then 0 else e }

/-- The power of ten of the leading digit. -/
def leading (d : Decimal) : Int := d.exponent + (digits d.coefficient).length - 1

/-- The power of ten of the leading digit of the positive number `num / den`. -/
def leadingOf (num den : Nat) : Int :=
  if den ≤ num then ((digits (num / den)).length : Int) - 1
  else
    let k := (digits (den / num)).length
    if den ≤ num * Nat.pow 10 (k - 1) then -((k : Int) - 1) else -(k : Int)

/-- The nearest decimal with `n` significant digits, a half going to the even neighbour. -/
def significant (n : Nat) (negative : Bool) (magnitude : Rat) : Decimal :=
  let num := magnitude.num.natAbs
  let den := magnitude.den
  if num == 0 then ⟨negative, 0, 0⟩
  else
    let e := leadingOf num den - ((n : Int) - 1)
    let c :=
      if 0 ≤ e then roundDiv num (den * Nat.pow 10 e.toNat)
      else roundDiv (num * Nat.pow 10 (-e).toNat) den
    normal ⟨negative, c, e⟩

def sign (d : Decimal) : List Char := if d.negative then ['-'] else []

/-- Whole part, point and fraction; no point where the number is whole. -/
def positional (d : Decimal) : List Char :=
  let ds := digits d.coefficient
  if 0 ≤ d.exponent then d.sign ++ ds ++ List.replicate d.exponent.toNat '0'
  else
    let places := (-d.exponent).toNat
    if places < ds.length then
      d.sign ++ ds.take (ds.length - places) ++ ['.'] ++ ds.drop (ds.length - places)
    else
      d.sign ++ ['0', '.'] ++ List.replicate (places - ds.length) '0' ++ ds

/-- One digit before the point, and an exponent with a sign and at least two digits. -/
def scientific (d : Decimal) : List Char :=
  let ds := digits d.coefficient
  let e := d.leading
  let power := digits e.natAbs
  let power := if power.length < 2 then '0' :: power else power
  let mantissa :=
    match ds with
    | c :: rest@(_ :: _) => c :: '.' :: rest
    | short => short
  d.sign ++ mantissa ++ ['e', if e < 0 then '-' else '+'] ++ power

/-- How a decimal is laid out: from which to below which leading power the point stands in its
place, and whether a whole number keeps a point. -/
structure Layout where
  lowest : Int
  highest : Int
  keepPoint : Bool

def render (layout : Layout) (d : Decimal) : List Char :=
  let d := d.normal
  if d.coefficient == 0 || (layout.lowest ≤ d.leading && d.leading < layout.highest) then
    d.positional ++ if layout.keepPoint && 0 ≤ d.exponent then ['.', '0'] else []
  else d.scientific

/-- Numbers in answers and messages: positional from `1e-4` up to below `1e16`, whole numbers with
a `.0`. -/
def full : Layout := ⟨-4, 16, true⟩

/-- Numbers with six significant digits: positional from `1e-4` up to below `1e6`, no `.0`. -/
def brief : Layout := ⟨-4, 6, false⟩

end Decimal

end Storyboard
