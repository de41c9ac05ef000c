import Storyboard.Numeral
import Storyboard.Json

namespace Storyboard

/-- The shape of the way from one keyframe to the next. -/
inductive Easing (R : Type) where
  | linear
  | easeIn
  | easeOut
  | easeInOut
  | bounce
  | elastic
  | bezier (x1 y1 x2 y2 : R)
  deriving DecidableEq

namespace Easing

variable {R : Type}

def ofName? (name : String) : Option (Easing R) :=
  match name with
  | "linear" => some linear
  | "ease-in" => some easeIn
  | "ease-out" => some easeOut
  | "ease-in-out" => some easeInOut
  | "bounce" => some bounce
  | "elastic" => some elastic
  | _ => none

/-- The beginning of the text form of a curve. -/
def bezierLead : List Char := "cubic-bezier(".toList

/-- The text up to a comma, not empty, and the rest behind the comma. -/
def field? (cs : List Char) : Option (List Char × List Char) :=
  match cs.takeWhile (· != ','), cs.dropWhile (· != ',') with
  | [], _ => none
  | _, [] => none
  | f, _ :: rest => some (f, rest)

/-- The text up to a closing bracket at the very end, not empty. -/
def lastField? (cs : List Char) : Option (List Char) :=
  match cs.takeWhile (· != ')'), cs.dropWhile (· != ')') with
  | [], _ => none
  | f, [_] => some f
  | _, _ => none

/-- The four fields of the text form of a curve. -/
def fields? (cs : List Char) : Option (List (List Char)) :=
  if bezierLead.isPrefixOf cs then do
    let (f1, rest) ← field? (cs.drop bezierLead.length)
    let (f2, rest) ← field? rest
    let (f3, rest) ← field? rest
    let f4 ← lastField? rest
    return [f1, f2, f3, f4]
  else none

section

variable [Scalar R]

/-- The numbers in four fields, blanks around each of them left out. -/
def numbers? (fields : List (List Char)) : Option (R × R × R × R) :=
  match fields.mapM fun f => readReal? (Text.trim f) with
  | some [x1, y1, x2, y2] => some (x1, y1, x2, y2)
  | _ => none

/-- The four points of the object form of a curve, if they are numbers. -/
def points? (members : Members R) : Option (List (Number R)) :=
  match Members.get? "type" members, Members.get? "points" members with
  | some (.str "cubic-bezier"), some (.arr items) =>
    if items.length == 4 then
      items.mapM fun
        | .num n => some n
        | _ => none
    else none
  | _, _ => none

/-- The control points of a curve in either form. Blanks around the text form do not count. -/
def curve? (j : Json R) : Outcome (Option (R × R × R × R)) :=
  match j with
  | .str s => .ok ((fields? (Text.trim s.toList)).bind numbers?)
  | .obj members =>
    match points? members with
    | some [a, b, c, d] => do
      let x1 ← a.toReal
      let y1 ← b.toReal
      let x2 ← c.toReal
      let y2 ← d.toReal
      return some (x1, y1, x2, y2)
    | _ => .ok none
  | _ => .ok none

/-- The easing that a value means; a value that means none is linear. -/
def ofJson (j : Json R) : Outcome (Easing R) :=
  let ofCurve (found : Option (R × R × R × R)) : Easing R :=
    match found with
    | some (x1, y1, x2, y2) => bezier x1 y1 x2 y2
    | none => linear
  match j with
  | .null => .ok linear
  | .str s =>
    if s == "" then .ok linear
    else
      match ofName? s with
      | some e => .ok e
      | none => (curve? j).map ofCurve
  | j => (curve? j).map ofCurve

def ofOption : Option (Json R) → Outcome (Easing R)
  | none => .ok linear
  | some j => ofJson j

/-- Whether a number lies between zero and one. -/
def inUnit (n : Number R) : Bool := (Number.int 0).le n && n.le (.int 1)

/-- A number with six significant digits, in a message. -/
def brief (n : Number R) : Outcome String := n.toReal.map Scalar.briefText

/-- Refuses horizontal control points outside of zero to one. -/
def checkRange (context : String) (x1 x2 : Number R) : Outcome Unit :=
  if inUnit x1 && inUnit x2 then .ok ()
  else do
    let t1 ← brief x1
    let t2 ← brief x2
    .error (.easing context (.outOfRange t1 t2))

def checkText (context text : String) : Outcome Unit :=
  if text == "" || easingNames.contains text then .ok ()
  else if bezierLead.isPrefixOf text.toList then
    match fields? text.toList with
    | none => .error (.easing context (.malformed text))
    | some fields =>
      match numbers? (R := R) fields with
      | none => .error (.easing context .notNumbers)
      | some (x1, _, x2, _) => checkRange context (.real x1) (.real x2)
  else .error (.easing context (.unknown text))

def checkMembers (context : String) (members : Members R) : Outcome Unit :=
  match Members.get? "type" members with
  | some (.str "cubic-bezier") =>
    match Members.get? "points" members with
    | some (.arr [a, b, c, d]) =>
      match a, b, c, d with
      | .num x1, .num _, .num x2, .num _ => checkRange context x1 x2
      | _, _, _, _ => .error (.easing context .pointsNotNumbers)
    | _ => .error (.easing context .notFourPoints)
  | _ => .error (.easing context (.notAnEasing "dict"))

/-- Refuses a value that is not an easing; `context` names its place. -/
def check (context : String) : Json R → Outcome Unit
  | .null => .ok ()
  | .str s => checkText (R := R) context s
  | .obj members => checkMembers context members
  | j => .error (.easing context (.notAnEasing j.kind))

/-- Refuses the easing of a keyframe, which may declare none. -/
def checkOption (context : String) : Option (Json R) → Outcome Unit
  | none => .ok ()
  | some j => check context j

end

end Easing

def keyframeContext (source property : String) (index : Nat) : String :=
  source ++ ", property " ++ quote property ++ ", keyframe " ++ toString index

end Storyboard
