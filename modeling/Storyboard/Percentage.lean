import Storyboard.Numeral
import Storyboard.Json

namespace Storyboard.Percentage

/-- Digits in front, at least one, and the rest. -/
def digits? (cs : List Char) : Option (List Char × List Char) :=
  match cs.takeWhile Text.isDigit with
  | [] => none
  | ds => some (ds, cs.dropWhile Text.isDigit)

/-- The text after an optional minus sign, digits, and an optional point with digits. -/
def afterNumber? (cs : List Char) : Option (List Char) :=
  match digits? (Numeral.scanMinus cs).2 with
  | none => none
  | some (_, '.' :: rest) => (digits? rest).map Prod.snd
  | some (_, rest) => some rest

/-- Whether a text is a number with a percent sign; one line break may follow. -/
def isPercentage (text : String) : Bool :=
  match afterNumber? text.toList with
  | some rest => rest == ['%'] || rest == ['%', '\n']
  | none => false

/-- Whether a text is a number and nothing else, blanks around it left out. -/
def isNumeric (text : String) : Bool :=
  let cs := (Numeral.scanMinus (text.toList.dropWhile Text.isBlank)).2
  match Numeral.scan Text.isDigit cs with
  | some (_, rest) => rest.all Text.isBlank
  | none => false

variable {R : Type} [Scalar R]

/-- The part of a length that a percentage stands for: the number in front of the last character,
as hundredths. -/
def part (text : String) (length : Number R) : Outcome (Number R) :=
  match readReal? (R := R) text.toList.dropLast with
  | none => numericFault .value
  | some x => do
    let share ← (Number.real x).div (.real (Scalar.const 100 0))
    share.mul length

/-- A number or text with a percentage replaced by its part of a length. -/
def resolve (q : Quantity R) (length : Number R) : Outcome (Quantity R) :=
  match q with
  | .text s => if isPercentage s then (part s length).map .number else .ok q
  | .number _ => .ok q

def isPercent : Quantity R → Bool
  | .text s => isPercentage s
  | .number _ => false

theorem resolve_of_isPercent {q : Quantity R} (h : isPercent q = false) (length : Number R) :
    resolve q length = .ok q := by
  cases q with
  | number n => rfl
  | text s =>
    have hs : ¬ isPercentage s = true := by simpa [isPercent] using h
    exact if_neg hs

/-- A value with a percentage replaced by its part of a length. -/
def resolveJson (j : Json R) (length : Number R) : Outcome (Json R) :=
  match j with
  | .str s => if isPercentage s then (part s length).map .num else .ok j
  | _ => .ok j

/-- An effect value as a number or a percentage; `context` names its place. -/
def effectValue (context : String) : Json R → Outcome (Quantity R)
  | .num n => .ok (.number n)
  | .str s =>
    if isPercentage s then .ok (.text s)
    else if isNumeric s then .error (.effectValue context (.quotedNumber s))
    else .error (.effectValue context (.notAPercentage s))
  | j => .error (.effectValue context (.notAValue j.kind))

end Storyboard.Percentage
