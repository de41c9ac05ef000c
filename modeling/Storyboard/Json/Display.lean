import Storyboard.Json
import Storyboard.Text.Half
import Storyboard.Text.Printable

namespace Storyboard.Json

/-- The quote around a shown text: single, unless the text holds single quotes and no double
ones. -/
def displayQuote (cs : List Char) : Char :=
  if cs.contains '\x27' && !cs.contains '"' then '"' else '\x27'

/-- A code point by its hexadecimal digits, with as many as the smallest of three widths allows. -/
def displayCode (n : Nat) : List Char :=
  let hex (width : Nat) : List Char :=
    let ds := Nat.toDigits 16 n
    List.replicate (width - ds.length) '0' ++ ds
  if n < 0x100 then '\\' :: 'x' :: hex 2
  else if n < 0x10000 then '\\' :: 'u' :: hex 4
  else '\\' :: 'U' :: hex 8

/-- A code point inside a shown text. -/
def displayPoint (quote : Char) (n : Nat) : List Char :=
  if Text.isHalf n then displayCode n
  else
    let c := Char.ofNat n
    if c == quote || c == '\\' then ['\\', c]
    else if c == '\n' then ['\\', 'n']
    else if c == '\r' then ['\\', 'r']
    else if c == '\t' then ['\\', 't']
    else if Text.isPrintable c then [c]
    else displayCode n

def displayText (s : String) : String :=
  let q := displayQuote s.toList
  String.ofList (q :: (Text.pointsOf s).flatMap (displayPoint q) ++ [q])

section

variable {R : Type} [Scalar R]

mutual

def display : Json R → String
  | null => "None"
  | bool b => if b then "True" else "False"
  | num n => n.text
  | str s => displayText s
  | arr items => "[" ++ ", ".intercalate (displayItems items) ++ "]"
  | obj members => "\x7b" ++ ", ".intercalate (displayMembers members) ++ "\x7d"

def displayItems : List (Json R) → List String
  | [] => []
  | j :: rest => display j :: displayItems rest

def displayMembers : List (String × Json R) → List String
  | [] => []
  | (n, j) :: rest => (displayText n ++ ": " ++ display j) :: displayMembers rest

end

/-- A value as it is put into a text: a text as it is, anything else as it is shown. -/
def insertion : Json R → String
  | str s => s
  | j => j.display

end

end Storyboard.Json
