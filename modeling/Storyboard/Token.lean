import Storyboard.Json.Display
import Storyboard.Text.Word

namespace Storyboard.Token

def opening : Char := '\x7b'

def closing : Char := '\x7d'

/-- A double-braced name. -/
def marked (name : List Char) : List Char := opening :: opening :: name ++ [closing, closing]

/-- The name of the double-braced token in front, if there is one. -/
def leading? (cs : List Char) : Option (List Char) :=
  match cs with
  | a :: b :: rest =>
    let name := rest.takeWhile Text.isWord
    if a == opening && b == opening && !name.isEmpty &&
        (rest.dropWhile Text.isWord).take 2 == [closing, closing] then some name
    else none
  | _ => none

/-- The text with each double-braced name replaced by its value, in one pass from the left. The
first argument counts the characters of a token, already replaced, that are still to be passed. -/
def replaceFrom (value? : List Char → Option (List Char)) : Nat → List Char → List Char
  | _, [] => []
  | skip + 1, _ :: cs => replaceFrom value? skip cs
  | 0, c :: cs =>
    match leading? (c :: cs) with
    | some name =>
      (value? name).getD (marked name) ++ replaceFrom value? (name.length + 3) cs
    | none => c :: replaceFrom value? 0 cs

/-- The name that a text consists of, if it is a single-braced name; one line break may follow. -/
def wholeName? (cs : List Char) : Option (List Char) :=
  match cs with
  | a :: rest =>
    let name := rest.takeWhile Text.isWord
    let after := rest.dropWhile Text.isWord
    if a == opening && !name.isEmpty && (after == [closing] || after == [closing, '\n']) then
      some name
    else none
  | [] => none

variable {R : Type}

/-- The name that a value consists of, if it is a text that is a single-braced name. -/
def name? : Json R → Option String
  | .str s => (wholeName? s.toList).map String.ofList
  | _ => none

variable [Scalar R]

/-- The text with each double-braced parameter name replaced by the text of the parameter. -/
def fill (params : Members R) (text : String) : String :=
  String.ofList <| replaceFrom
    (fun name => (Members.get? (String.ofList name) params).map fun j => j.insertion.toList) 0
    text.toList

/-- A text with its tokens replaced: by the parameter itself where the text is one token. -/
def fillText (params : Members R) (text : String) : Json R :=
  match (wholeName? text.toList).bind fun name => Members.get? (String.ofList name) params with
  | some j => j
  | none => .str (fill params text)

mutual

/-- The value with the tokens of all its texts replaced; names of members are kept. -/
def substitute (params : Members R) : Json R → Json R
  | .str s => fillText params s
  | .arr items => .arr (substituteItems params items)
  | .obj members => .obj (substituteMembers params members)
  | .null => .null
  | .bool b => .bool b
  | .num n => .num n

def substituteItems (params : Members R) : List (Json R) → List (Json R)
  | [] => []
  | j :: rest => substitute params j :: substituteItems params rest

def substituteMembers (params : Members R) : List (String × Json R) → List (String × Json R)
  | [] => []
  | (n, j) :: rest => (n, substitute params j) :: substituteMembers params rest

end

def neutralOnes : List String := ["scale", "scaleX", "scaleY", "opacity"]

/-- The neutral value of a property. -/
def neutral (property : String) : R :=
  if property ∈ neutralOnes then Scalar.const 1 0 else Scalar.const 0 0

/-- An effect value with a property name as its token replaced by that property of the target, or
by the neutral value where the target has none. -/
def substituteProperty (props : Option (Members R)) (value : Json R) : Json R :=
  match name? value with
  | none => value
  | some name =>
    match props.bind (Members.get? name) with
    | none | some .null => .real (neutral name)
    | some j => j

end Storyboard.Token
