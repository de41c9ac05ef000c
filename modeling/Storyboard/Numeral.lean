import Storyboard.Number
import Storyboard.Text.Blank
import Storyboard.Text.Digit

namespace Storyboard

structure Numeral where
  whole : List Char
  fraction : List Char
  exponent : Int
  deriving DecidableEq

namespace Numeral

def digitsValue (ds : List Char) : Nat := ds.foldl (fun n c => n * 10 + Text.digitValue c) 0

def toDecimal (negative : Bool) (n : Numeral) : Decimal :=
  ⟨negative, digitsValue (n.whole ++ n.fraction), n.exponent - n.fraction.length⟩

/-- The fraction after a point, if there is a point, and the rest. -/
def scanFraction (digit : Char → Bool) : List Char → List Char × List Char
  | '.' :: rest => (rest.takeWhile digit, rest.dropWhile digit)
  | cs => ([], cs)

/-- A sign that may stand in front of digits, and the rest. -/
def scanSign : List Char → Bool × List Char
  | '-' :: rest => (true, rest)
  | '+' :: rest => (false, rest)
  | cs => (false, cs)

/-- The exponent, if an exponent with digits follows, and the rest. -/
def scanExponent (digit : Char → Bool) (cs : List Char) : Int × List Char :=
  match cs with
  | [] => (0, [])
  | e :: rest =>
    if e == 'e' || e == 'E' then
      let (negative, rest) := scanSign rest
      match rest.takeWhile digit with
      | [] => (0, cs)
      | ds =>
        let n : Int := digitsValue ds
        (if negative then -n else n, rest.dropWhile digit)
    else (0, cs)

/-- The longest numeral in front, and the rest. -/
def scan (digit : Char → Bool) (cs : List Char) : Option (Numeral × List Char) :=
  let whole := cs.takeWhile digit
  let (fraction, rest) := scanFraction digit (cs.dropWhile digit)
  if whole.isEmpty && fraction.isEmpty then none
  else
    let (exponent, rest) := scanExponent digit rest
    some (⟨whole, fraction, exponent⟩, rest)

def scanMinus : List Char → Bool × List Char
  | '-' :: rest => (true, rest)
  | cs => (false, cs)

/-- Whether every separator stands between two digits. -/
def separatorsInside (digit : Char → Bool) : Char → List Char → Bool
  | _, [] => true
  | before, '_' :: rest =>
    digit before &&
      (match rest with
      | [] => false
      | c :: _ => digit c) && separatorsInside digit '_' rest
  | _, c :: rest => separatorsInside digit c rest

/-- The text without separators, if each of them stands between two digits. -/
def withoutSeparators (digit : Char → Bool) (cs : List Char) : Option (List Char) :=
  if separatorsInside digit '_' cs then some (cs.filter (· != '_')) else none

end Numeral

section

variable {R : Type} [Scalar R]

/-- The scalar of a whole text that is a numeral. -/
def readNumeral? (digit : Char → Bool) (negative : Bool) (cs : List Char) : Option R :=
  match Numeral.scan digit cs with
  | some (n, []) => some (Scalar.ofDecimal (n.toDecimal negative))
  | _ => none

/-- The scalar that is written as a word, in letters of either case. -/
def readSpecial? (negative : Bool) (cs : List Char) : Option R :=
  let word := String.ofList (cs.map Char.toLower)
  if word == "nan" then Scalar.nan?
  else if word == "inf" || word == "infinity" then Scalar.infinite? negative
  else none

/-- The scalar that a text writes: blanks around it do not count, digits may be of any script and
have single separators between them. -/
def readReal? (text : List Char) : Option R :=
  let (negative, cs) := Numeral.scanSign (Text.trimWhere Text.isSpace text)
  (readSpecial? negative cs).or do
    let plain ← Numeral.withoutSeparators Text.isDigit cs
    readNumeral? Text.isDigit negative plain

end

end Storyboard
