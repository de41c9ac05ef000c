import Storyboard.Json
import Storyboard.Text.Half

namespace Storyboard.Json

inductive ReadFault where
  | malformed
  | nestedTooDeep
  | numberTooLong (digits : Nat)
  deriving DecidableEq, Repr

/-- A reading that fails for no other reason than the form of the text. -/
def ofForm {α : Type} : Option α → Except ReadFault α
  | some a => .ok a
  | none => .error .malformed

/-- The blanks between tokens. -/
def isGap (c : Char) : Bool := c == ' ' || c == '\n' || c == '\t' || c == '\r'

def skipGap (cs : List Char) : List Char := cs.dropWhile isGap

/-- The text after a given beginning. -/
def after? : List Char → List Char → Option (List Char)
  | [], cs => some cs
  | _ :: _, [] => none
  | w :: ws, c :: cs => if w == c then after? ws cs else none

def hexValue? (c : Char) : Option Nat :=
  if c.isDigit then some (c.toNat - 48)
  else if 'a' ≤ c && c ≤ 'f' then some (c.toNat - 87)
  else if 'A' ≤ c && c ≤ 'F' then some (c.toNat - 55)
  else none

def readUnit : List Char → Option (Nat × List Char)
  | a :: b :: c :: d :: rest => do
    let a ← hexValue? a
    let b ← hexValue? b
    let c ← hexValue? c
    let d ← hexValue? d
    return (((a * 16 + b) * 16 + c) * 16 + d, rest)
  | _ => none

/-- The code point of an escaped unit. Two halves that follow each other are one character. -/
def readEscapedUnit (cs : List Char) : Option (Nat × List Char) := do
  let (high, rest) ← readUnit cs
  if Text.isHighUnit high then
    match rest with
    | '\\' :: 'u' :: more =>
      let (low, rest') ← readUnit more
      if Text.isLowUnit low then return (Text.joined high low, rest') else return (high, rest)
    | _ => return (high, rest)
  else return (high, rest)

/-- The code point of an escape of one letter. -/
def shortEscape? : Char → Option Nat
  | '"' => some 0x22
  | '\\' => some 0x5c
  | '/' => some 0x2f
  | 'b' => some 0x08
  | 'f' => some 0x0c
  | 'n' => some 0x0a
  | 'r' => some 0x0d
  | 't' => some 0x09
  | _ => none

/-- A quoted text whose opening quote has been read, and the rest after the closing one. The code
points read before are given from the last one on. -/
def readText : Nat → List Nat → List Char → Option (String × List Char)
  | 0, _, _ => none
  | _ + 1, _, [] => none
  | fuel + 1, acc, c :: cs =>
    if c == '"' then some (Text.ofPoints acc.reverse, cs)
    else if c == '\\' then
      match cs with
      | 'u' :: rest =>
        match readEscapedUnit rest with
        | some (n, rest') => readText fuel (n :: acc) rest'
        | none => none
      | e :: rest =>
        match shortEscape? e with
        | some n => readText fuel (n :: acc) rest
        | none => none
      | [] => none
    else if c.toNat < 0x20 then none
    else readText fuel (c.toNat :: acc) cs

def digitsValue (ds : List Char) : Nat := ds.foldl (fun n c => n * 10 + (c.toNat - 48)) 0

/-- The digits in front and the rest; a number that goes on has no further zero after a leading
one. -/
def readWhole (cs : List Char) : Option (List Char × List Char) :=
  match cs with
  | '0' :: rest => some (['0'], rest)
  | _ =>
    match cs.takeWhile Char.isDigit with
    | [] => none
    | ds => some (ds, cs.dropWhile Char.isDigit)

def readFraction (cs : List Char) : Option (List Char × List Char) :=
  match cs with
  | '.' :: rest =>
    match rest.takeWhile Char.isDigit with
    | [] => none
    | ds => some (ds, rest.dropWhile Char.isDigit)
  | _ => none

def readExponent (cs : List Char) : Option (Int × List Char) :=
  match cs with
  | e :: rest =>
    if e == 'e' || e == 'E' then
      let (negative, rest) :=
        match rest with
        | '+' :: r => (false, r)
        | '-' :: r => (true, r)
        | r => (false, r)
      match rest.takeWhile Char.isDigit with
      | [] => none
      | ds =>
        let n : Int := digitsValue ds
        some (if negative then -n else n, rest.dropWhile Char.isDigit)
    else none
  | [] => none

section

variable {R : Type} [Scalar R]

/-- How many digits a whole number may have. -/
def maxDigits : Nat := 4300

/-- A number and the rest. Without fraction and exponent it is whole. -/
def readNumber (cs : List Char) : Except ReadFault (Number R × List Char) := do
  let (negative, cs) := match cs with
    | '-' :: rest => (true, rest)
    | cs => (false, cs)
  let (whole, cs) ← ofForm (readWhole cs)
  let fraction := readFraction cs
  let cs := match fraction with
    | some (_, rest) => rest
    | none => cs
  let exponent := readExponent cs
  let cs := match exponent with
    | some (_, rest) => rest
    | none => cs
  match fraction, exponent with
  | none, none =>
    if maxDigits < whole.length then throw (.numberTooLong whole.length)
    else
      let n : Int := digitsValue whole
      return (.int (if negative then -n else n), cs)
  | _, _ =>
    let places := (fraction.map Prod.fst).getD []
    let power := (exponent.map Prod.fst).getD 0
    return (.real (Scalar.ofDecimal
      ⟨negative, digitsValue (whole ++ places), power - places.length⟩), cs)

def readWord (cs : List Char) : Option (Json R × List Char) :=
  let word (w : String) (j : Option (Json R)) : Option (Json R × List Char) := do
    let rest ← after? w.toList cs
    let j ← j
    return (j, rest)
  word "null" (some null) <|> word "true" (some (bool true)) <|>
    word "false" (some (bool false)) <|>
    word "NaN" ((Scalar.nan? (R := R)).map real) <|>
    word "Infinity" ((Scalar.infinite? (R := R) false).map real) <|>
    word "-Infinity" ((Scalar.infinite? (R := R) true).map real)

mutual

/-- A value in which lists and objects nest in so many levels, blanks in front skipped, and the
rest. -/
def readValue : Nat → Nat → List Char → Except ReadFault (Json R × List Char)
  | 0, _, _ => .error .malformed
  | fuel + 1, levels, cs =>
    match skipGap cs with
    | '"' :: rest => do
      let (s, rest) ← ofForm (readText (rest.length + 1) [] rest)
      return (str s, rest)
    | '[' :: rest =>
      match levels with
      | 0 => .error .nestedTooDeep
      | inner + 1 =>
        match skipGap rest with
        | ']' :: rest' => .ok (arr [], rest')
        | _ => (readItems fuel inner rest).map fun (items, rest) => (arr items, rest)
    | '\x7b' :: rest =>
      match levels with
      | 0 => .error .nestedTooDeep
      | inner + 1 =>
        match skipGap rest with
        | '\x7d' :: rest' => .ok (obj [], rest')
        | _ => (readMembers fuel inner rest).map fun (ms, rest) => (obj (Members.ofList ms), rest)
    | cs =>
      match readWord cs with
      | some found => .ok found
      | none => (readNumber cs).map fun (n, rest) => (num n, rest)

def readItems : Nat → Nat → List Char → Except ReadFault (List (Json R) × List Char)
  | 0, _, _ => .error .malformed
  | fuel + 1, levels, cs =>
    match readValue fuel levels cs with
    | .error e => .error e
    | .ok (j, rest) =>
      match skipGap rest with
      | ',' :: rest' => (readItems fuel levels rest').map fun (js, r) => (j :: js, r)
      | ']' :: rest' => .ok ([j], rest')
      | _ => .error .malformed

def readMembers : Nat → Nat → List Char →
    Except ReadFault (List (String × Json R) × List Char)
  | 0, _, _ => .error .malformed
  | fuel + 1, levels, cs =>
    match skipGap cs with
    | '"' :: rest =>
      match readText (rest.length + 1) [] rest with
      | none => .error .malformed
      | some (name, rest) =>
        match skipGap rest with
        | ':' :: rest =>
          match readValue fuel levels rest with
          | .error e => .error e
          | .ok (j, rest) =>
            match skipGap rest with
            | ',' :: rest' =>
              (readMembers fuel levels rest').map fun (ms, r) => ((name, j) :: ms, r)
            | '\x7d' :: rest' => .ok ([(name, j)], rest')
            | _ => .error .malformed
        | _ => .error .malformed
    | _ => .error .malformed

end

/-- The value that a text holds, blanks around it left out. Lists and objects may nest in so many
levels. -/
def read (levels : Nat) (text : String) : Except ReadFault (Json R) :=
  let cs := text.toList
  match readValue (2 * cs.length + 2) levels cs with
  | .error e => .error e
  | .ok (j, rest) => if (skipGap rest).isEmpty then .ok j else .error .malformed

end

end Storyboard.Json
