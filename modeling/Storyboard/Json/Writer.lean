import Storyboard.Json
import Storyboard.Text.Half

namespace Storyboard.Json

/-- Four lower-case hexadecimal digits. -/
def hex4 (n : Nat) : List Char :=
  [n / 4096 % 16, n / 256 % 16, n / 16 % 16, n % 16].map Nat.digitChar

def escapeUnit (n : Nat) : List Char := '\\' :: 'u' :: hex4 n

/-- The letter with which a character is escaped, for those that have one. -/
def shortLetter? : Nat → Option Char
  | 0x22 => some '"'
  | 0x5c => some '\\'
  | 0x0a => some 'n'
  | 0x0d => some 'r'
  | 0x09 => some 't'
  | 0x08 => some 'b'
  | 0x0c => some 'f'
  | _ => none

def escapePoint (n : Nat) : List Char :=
  match shortLetter? n with
  | some letter => ['\\', letter]
  | none =>
    if 0x20 ≤ n && n < 0x7f then [Char.ofNat n]
    else if n < 0x10000 then escapeUnit n
    else escapeUnit (0xd800 + (n - 0x10000) / 0x400) ++ escapeUnit (0xdc00 + (n - 0x10000) % 0x400)

def quoted (s : String) : String :=
  String.ofList ('"' :: (Text.pointsOf s).flatMap escapePoint ++ ['"'])

section

variable {R : Type} [Scalar R]

/-- A number; those that are not finite are written as words. -/
def numeral (n : Number R) : String :=
  match n with
  | .int n => toString n
  | .real x =>
    match Scalar.exact x with
    | .nan => "NaN"
    | .infinite s => if s then "-Infinity" else "Infinity"
    | .finite _ => Scalar.text x

mutual

/-- The value on one line without blanks. -/
def compact : Json R → String
  | null => "null"
  | bool b => if b then "true" else "false"
  | num n => numeral n
  | str s => quoted s
  | arr items => "[" ++ ",".intercalate (compactItems items) ++ "]"
  | obj members => "\x7b" ++ ",".intercalate (compactMembers members) ++ "\x7d"

def compactItems : List (Json R) → List String
  | [] => []
  | j :: rest => compact j :: compactItems rest

def compactMembers : List (String × Json R) → List String
  | [] => []
  | (n, j) :: rest => (quoted n ++ ":" ++ compact j) :: compactMembers rest

end

/-- A line break followed by two blanks for each level. -/
def lineBreak (level : Nat) : String := String.ofList ('\n' :: List.replicate (2 * level) ' ')

/-- Brackets around parts that stand on lines of their own, or side by side if there are none. -/
def block (opening closing : String) (level : Nat) (parts : List String) : String :=
  if parts.isEmpty then opening ++ closing
  else
    opening ++ lineBreak (level + 1) ++ ("," ++ lineBreak (level + 1)).intercalate parts ++
      lineBreak level ++ closing

mutual

/-- The value with a line for each item and member, at a level of indentation. -/
def indented (level : Nat) : Json R → String
  | null => "null"
  | bool b => if b then "true" else "false"
  | num n => numeral n
  | str s => quoted s
  | arr items => block "[" "]" level (indentedItems (level + 1) items)
  | obj members => block "\x7b" "\x7d" level (indentedMembers (level + 1) members)

def indentedItems (level : Nat) : List (Json R) → List String
  | [] => []
  | j :: rest => indented level j :: indentedItems level rest

def indentedMembers (level : Nat) : List (String × Json R) → List String
  | [] => []
  | (n, j) :: rest => (quoted n ++ ": " ++ indented level j) :: indentedMembers level rest

end

/-- The text of a document: a line for each item and member, two blanks for each level. -/
def document (j : Json R) : String := j.indented 0

end

end Storyboard.Json
