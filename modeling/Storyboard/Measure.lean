import Storyboard.Json.Display
import Storyboard.Numeral
import Storyboard.Object.Schema
import Storyboard.Settings

namespace Storyboard

structure Size (R : Type) where
  width : R
  height : R

structure TextRequest (R : Type) where
  content : String
  size : R
  font : Option (Json R)
  bold : Bool

/-- A way to measure texts. -/
abbrev Measurer (R : Type) := TextRequest R → Outcome (Size R)

variable {R : Type} [Scalar R]

namespace Json

/-- The value as a scalar: a number, a flag, or a text that writes a number. -/
def toReal : Json R → Outcome R
  | num n => n.toReal
  | bool b => (Number.int (if b then 1 else 0)).toReal
  | str s =>
    match readReal? s.toList with
    | some x => .ok x
    | none => numericFault .value
  | _ => numericFault .operand

end Json

namespace Measurer

/-- Characters half as wide as they are high, in lines of one and a fifth of that height. -/
def uniform : Measurer R := fun t => do
  let wide ← (Number.int (Text.length t.content)).mul (.real t.size)
  let width ← wide.mul (.real (Scalar.const 5 (-1)))
  let width ← width.toReal
  return ⟨width, Scalar.mul t.size (Scalar.const 12 (-1))⟩

/-- Refuses what is no name of a font: a filled list or object, and a number or flag that is not
zero. -/
def checkFont : Json R → Outcome Unit
  | .str s =>
    if Text.hasHalf s then .error .halfInFontName
    else if s.toList.contains (Char.ofNat 0) then numericFault .value
    else .ok ()
  | .arr (_ :: _) | .obj (_ :: _) => numericFault .operand
  | j => if j.isFilled then .error .notAFontName else .ok ()

/-- Whether a size is above all that fonts are made for. One that does not fit into 64 bits as a
number of 64ths is not noticed. -/
def isTooLarge (size : R) : Bool :=
  match Scalar.exact size with
  | .finite q => decide (65535 + 1 / 2 ≤ q) && decide (q < (Nat.pow 2 57 : Nat))
  | _ => false

/-- Lines of the configured height, for texts without characters. The size has to be above zero. -/
def lines (settings : Settings R) : Measurer R := fun t => do
  let font := t.font.getD .null
  if font matches .arr _ | .obj _ then checkFont font
  if (Scalar.exact t.size).le (.finite 0) then numericFault .value
  checkFont font
  if isTooLarge t.size then throw .textTooLarge
  let height ← (Number.real t.size).mul settings.lineHeight
  let height ← height.toReal
  return ⟨Scalar.const 0 0, height⟩

end Measurer

/-- The length of a side that is not given. -/
def defaultSide : R := Scalar.const 100 0

def defaultRadius : R := Scalar.const 50 0

/-- A property as a scalar, or what stands for it where it is absent. -/
def lengthOr (default : R) (name : String) (props : Members R) : Outcome R :=
  match Members.get? name props with
  | none | some .null => .ok default
  | some j => j.toReal

def twice (x : R) : R := Scalar.mul x (Scalar.const 2 0)

/-- The natural size of an object of a kind with the given properties. -/
def measure (settings : Settings R) (measurer : Measurer R) (kind : String) (props : Members R) :
    Outcome (Size R) :=
  match kind with
  | "rect" | "image" => do
    let width ← lengthOr defaultSide "width" props
    let height ← lengthOr defaultSide "height" props
    return ⟨width, height⟩
  | "text" => do
    let given (name : String) : Json R := (Members.get? name props).getD .null
    let content := if (given "content").isFilled then (given "content").insertion else ""
    let size ←
      if (given "size").isFilled then (given "size").toReal else settings.textSize.toReal
    measurer ⟨content, size, Members.get? "font" props, (given "bold").isFilled⟩
  | "circle" => do
    let radius ← lengthOr defaultRadius "radius" props
    return ⟨twice radius, twice radius⟩
  | "ellipse" => do
    let radiusX ← lengthOr defaultRadius "radiusX" props
    let radiusY ← lengthOr defaultRadius "radiusY" props
    return ⟨twice radiusX, twice radiusY⟩
  | _ => .ok ⟨defaultSide, defaultSide⟩

/-- The natural size of an object with its declared properties. -/
def Object.measure (settings : Settings R) (measurer : Measurer R) (o : Object R) :
    Outcome (Size R) :=
  Storyboard.measure settings measurer o.kind o.staticProps

end Storyboard
