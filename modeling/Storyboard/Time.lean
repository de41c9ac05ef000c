import Storyboard.Numeral
import Storyboard.Json.Display

namespace Storyboard.Time

variable {R : Type} [Scalar R]

/-- The units of time, each with the suffix that names it. The suffix of milliseconds ends in that
of seconds and is looked for first. -/
inductive TimeUnit where
  | millisecond
  | minute
  | second
  deriving DecidableEq, Repr

/-- The units in the order in which their suffixes are looked for. -/
def units : List TimeUnit := [.millisecond, .minute, .second]

namespace TimeUnit

def suffix : TimeUnit → List Char
  | millisecond => ['m', 's']
  | minute => ['m']
  | second => ['s']

def seconds : TimeUnit → R
  | millisecond => Scalar.const 1 (-3)
  | minute => Scalar.const 60 0
  | second => Scalar.const 1 0

end TimeUnit

/-- The text before a suffix, if it ends in that suffix. -/
def before? (suffix cs : List Char) : Option (List Char) :=
  let n := cs.length - suffix.length
  if suffix.length ≤ cs.length && cs.drop n == suffix then some (cs.take n) else none

/-- The unit of a time text and the text before its suffix. -/
def splitUnit (cs : List Char) : Option (TimeUnit × List Char) :=
  units.findSome? fun u => (before? u.suffix cs).map (u, ·)

/-- The amount in front of the unit: an optional minus sign and a numeral, after which one line
break may stand. -/
def amount? (cs : List Char) : Option R :=
  let (negative, digits) := Numeral.scanMinus cs
  match Numeral.scan Text.isDigit digits with
  | some (n, rest) =>
    if rest == [] || rest == ['\n'] then some (Scalar.ofDecimal (n.toDecimal negative)) else none
  | none => none

/-- The amount in front of the unit, which is not below zero. `text` is the whole value. -/
def amount (text : String) (cs : List Char) : Outcome R :=
  match amount? cs with
  | none => .error (.time (.malformed text))
  | some a =>
    if (Scalar.exact a).lt (.finite 0) then .error (.time (.negative (quote text))) else .ok a

def frameOfText (text : String) (fps : Number R) : Outcome Int := do
  let cs := text.toList
  if cs.isEmpty then .error (.time (.unreadable (Json.displayText text)))
  else
    match splitUnit cs with
    | some (unit, digits) =>
      let a ← amount text digits
      let frames ← (Number.real (Scalar.mul a unit.seconds)).mul fps
      frames.roundFrame
    | none =>
      let a : R ← amount text cs
      (Number.real a).roundFrame

def frame (fps : Number R) : Quantity R → Outcome Int
  | .number n =>
    if n.lt (.int 0) then .error (.time (.negative n.text)) else n.roundFrame
  | .text s => frameOfText s fps

/-- The frame of an optional time value; without one, zero. -/
def frameOrZero (fps : Number R) : Option (Quantity R) → Outcome Int
  | none => .ok 0
  | some q => frame fps q

/-- The frame of any value, refused unless it is a time value. -/
def frameOfJson (j : Json R) (fps : Number R) : Outcome Int :=
  match j.quantity? with
  | some q => frame fps q
  | none => .error (.time (.unreadable j.display))

end Storyboard.Time
