import Storyboard.Schema
import Storyboard.Numeral

namespace Storyboard.Codec

/-- How many characters a whole number may have, its sign among them. -/
def maxDigits : Nat := 4300

/-- The whole number that a text writes in plain form: a minus sign that may be there, and digits
that do not begin with a needless zero. A number that is too long is refused as such even if
something else follows it. -/
def plainWhole (cs : List Char) : Except IssueKind Int :=
  let (negative, ds) := Numeral.scanMinus cs
  let found := ds.takeWhile Char.isDigit
  match found with
  | [] => .error .wholeUnreadable
  | '0' :: _ => if ds.length == 1 then .ok 0 else .error .wholeUnreadable
  | _ =>
    if maxDigits < found.length + (if negative then 1 else 0) then .error .wholeTooLong
    else if found.length != ds.length then .error .wholeUnreadable
    else
      let n : Int := Numeral.digitsValue ds
      .ok (if negative then -n else n)

/-- The text after a zero in front, further zeros and separators. `before` is the character in front
of the text; it is kept if a point follows or nothing. A second minus sign may follow. -/
def afterZeros (before : Char) : List Char → Option (List Char)
  | [] => some [before]
  | c :: rest =>
    if c == '0' || c == '_' then afterZeros c rest
    else if c.isDigit || c == '-' then some (c :: rest)
    else if c == '.' then some (before :: c :: rest)
    else none

/-- The text without needless zeros in front, if it begins with a digit or a minus sign. -/
def withoutZeros? : List Char → Option (List Char)
  | [] => none
  | c :: rest =>
    if c == '0' then afterZeros c rest else if c.isDigit || c == '-' then some (c :: rest) else none

/-- The text in front of a point behind which there are zeros and nothing else. -/
def beforeZeros (cs : List Char) : List Char :=
  match cs.dropWhile (· != '.') with
  | _ :: '0' :: zeros => if zeros.all (· == '0') then cs.takeWhile (· != '.') else cs
  | _ => cs

/-- The text without separators, if none stands at an end or beside another. -/
def withoutSingleSeparators? (cs : List Char) : Option (List Char) :=
  let rec single : Char → List Char → Bool
    | before, [] => before != '_'
    | before, c :: rest => !(before == '_' && c == '_') && single c rest
  if cs.contains '_' && single '_' cs then some (cs.filter (· != '_')) else none

/-- The text of a whole number brought into plain form: blanks around it, a plus sign, zeros in
front, a fraction of zeros and single separators are left out. -/
def tidyWhole? (cs : List Char) : Option (List Char) :=
  let tidy (ds : List Char) : Option (List Char) :=
    (withoutZeros? ds).map fun ds =>
      let ds := beforeZeros ds
      (withoutSingleSeparators? ds).getD ds
  match Text.trimWhere Text.isSpace cs with
  | '+' :: '-' :: _ => none
  | '+' :: ds => tidy ds
  | '-' :: ds => (tidy ds).map ('-' :: ·)
  | ds => tidy ds

/-- The whole number that a text writes, in plain form or in one that can be brought into it. -/
def wholeOfText (text : String) : Except IssueKind Int :=
  let cs := text.toList
  match plainWhole cs with
  | .error .wholeUnreadable =>
    match tidyWhole? cs with
    | some plain => plainWhole plain
    | none => .error .wholeUnreadable
  | found => found

section

variable {R : Type} [Scalar R]

/-- The scalar that a text without blanks and separators writes. -/
def realOfPlain? (text : List Char) : Option R :=
  let (negative, cs) := Numeral.scanSign text
  (readSpecial? negative cs).or (readNumeral? Char.isDigit negative cs)

/-- The scalar that a text writes. There may be blanks around it or single separators in it, but not
both. -/
def realOfText? (text : String) : Option R :=
  (realOfPlain? (Text.trimWhere Text.isSpace text.toList)).or
    ((withoutSingleSeparators? text.toList).bind realOfPlain?)

def ofFlag (b : Bool) : Int := if b then 1 else 0

/-- The whole number that a scalar is. -/
def wholeOfReal (x : R) : Except IssueKind Int :=
  match Scalar.exact x with
  | .finite q =>
    if q.den != 1 then .error .wholeFromFraction
    else if -(Int.pow 2 63) < q.num && q.num < Int.pow 2 63 then .ok q.num
    else .error .wholeTooLong
  | _ => .error .notFinite

def readWhole : Json R → Except IssueKind Int
  | .num (.int n) => .ok n
  | .num (.real x) => wholeOfReal x
  | .bool b => .ok (ofFlag b)
  | .str s => if Text.hasHalf s then .error .halfInText else wholeOfText s
  | _ => .error .notAWhole

def readScalar : Json R → Except IssueKind R
  | .num n =>
    match n.toReal with
    | .ok x => .ok x
    | .error _ => .error .notAReal
  | .bool b =>
    match (Number.int (ofFlag b)).toReal with
    | .ok x => .ok x
    | .error _ => .error .notAReal
  | .str s =>
    match realOfText? s with
    | some x => .ok x
    | none => .error (if Text.hasHalf s then .halfInText else .realUnreadable)
  | _ => .error .notAReal

/-- A reading with one issue at most. -/
def single {α : Type} : Except IssueKind α → Checked α
  | .ok a => .ok a
  | .error kind => Checked.fail kind

def whole : Codec R Int := ⟨fun j => single (readWhole j), Json.int⟩

/-- Whole numbers from a least one on. -/
def wholeFrom (least : Int) : Codec R Int where
  read j :=
    match whole.read j with
    | .ok n => if n < least then Checked.fail .belowMinimum else .ok n
    | .error e => .error e
  write := Json.int

def scalar : Codec R R := ⟨fun j => single (readScalar j), Json.real⟩

def positive : Codec R R where
  read j :=
    match scalar.read j with
    | .ok x => if (Exact.finite 0).lt (Scalar.exact x) then .ok x else Checked.fail .notPositive
    | .error e => .error e
  write := Json.real

/-- The issues of a value that is none of the kinds in question, each under its kind. -/
def noneOf {α : Type} (issues : List (String × IssueKind)) : Checked α :=
  .error (issues.map fun i => ⟨i.2, [.key i.1]⟩)

/-- Numbers: a number stays as it is; anything else is read as a whole number if it can be. -/
def number : Codec R (Number R) where
  read
    | .num n => .ok n
    | j =>
      match readWhole j with
      | .ok n => .ok (.int n)
      | .error e =>
        match readScalar j with
        | .ok x => .ok (.real x)
        | .error e' => noneOf [("int", e), ("float", e')]
  write := Json.num

/-- Numbers and texts, which stay as they are. A flag counts as a whole number. -/
def quantity : Codec R (Quantity R) where
  read
    | .num n => .ok (.number n)
    | .str s => .ok (.text s)
    | .bool b => .ok (.number (.int (ofFlag b)))
    | _ => noneOf [("int", .notAWhole), ("float", .notAReal), ("str", .notAText)]
  write := Json.ofQuantity

def text : Codec R String where
  read
    | .str s => .ok s
    | _ => Checked.fail .notAText
  write := Json.str

def flagOfText? (text : String) : Option Bool :=
  let word := String.ofList (text.toList.map Char.toLower)
  if ["0", "off", "f", "false", "n", "no"].contains word then some false
  else if ["1", "on", "t", "true", "y", "yes"].contains word then some true
  else none

def flagOfInt (n : Int) : Except IssueKind Bool :=
  if n == 0 then .ok false else if n == 1 then .ok true else .error .flagUnreadable

def readFlag : Json R → Except IssueKind Bool
  | .bool b => .ok b
  | .str s =>
    match flagOfText? s with
    | some b => .ok b
    | none => .error (if Text.hasHalf s then .halfInText else .flagUnreadable)
  | .num (.int n) =>
    if -(Int.pow 2 63) ≤ n && n < Int.pow 2 63 then flagOfInt n else .error .notAFlag
  | .num (.real x) =>
    match wholeOfReal x with
    | .ok n => flagOfInt n
    | .error _ => .error .notAFlag
  | _ => .error .notAFlag

def flag : Codec R Bool := ⟨fun j => single (readFlag j), Json.bool⟩

end

end Storyboard.Codec
