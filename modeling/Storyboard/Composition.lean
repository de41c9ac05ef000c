import Storyboard.Affine
import Storyboard.Document
import Storyboard.Json.Writer
import Storyboard.Measure
import Storyboard.Track.Sampling

namespace Storyboard

/-- A clip rectangle in the space of a map. -/
structure ClipRect (R : Type) where
  x : Number R
  y : Number R
  width : Json R
  height : Json R
  transform : Affine R

/-- The surface that an object is drawn on before it is blurred. -/
structure BlurLayer (R : Type) where
  radius : Number R
  padding : Int
  width : Int
  height : Int

structure DrawItem (R : Type) where
  id : Option String
  kind : String
  props : Members R
  transform : Affine R
  opacity : Number R
  size : Size R
  anchorOffset : R × R
  clips : List (ClipRect R)
  blur : Option (BlurLayer R)

variable {R : Type} [Scalar R]

namespace Anchor

/-- The parts of the width and the height by which an object is moved back. -/
def factors : Anchor → R × R
  | topLeft => (Scalar.const 0 0, Scalar.const 0 0)
  | topCenter => (Scalar.const 5 (-1), Scalar.const 0 0)
  | topRight => (Scalar.const 1 0, Scalar.const 0 0)
  | centerLeft => (Scalar.const 0 0, Scalar.const 5 (-1))
  | center => (Scalar.const 5 (-1), Scalar.const 5 (-1))
  | centerRight => (Scalar.const 1 0, Scalar.const 5 (-1))
  | bottomLeft => (Scalar.const 0 0, Scalar.const 1 0)
  | bottomCenter => (Scalar.const 5 (-1), Scalar.const 1 0)
  | bottomRight => (Scalar.const 1 0, Scalar.const 1 0)

/-- The anchor that a property value means; one that means none is the top left. A filled list or
object cannot be looked up. -/
def ofProperty (value : Option (Json R)) : Outcome Anchor :=
  match value with
  | some (.str s) => .ok ((ofName? s).getD topLeft)
  | some (.arr (_ :: _)) | some (.obj (_ :: _)) => numericFault .operand
  | _ => .ok topLeft

def offset (a : Anchor) (width height : Number R) : Outcome (R × R) := do
  let x ← (Number.real (Scalar.neg a.factors.1)).mul width
  let y ← (Number.real (Scalar.neg a.factors.2)).mul height
  return (← x.toReal, ← y.toReal)

end Anchor

namespace BlurLayer

/-- The surface for a blur of a radius around an object of a size. -/
def around (radius width height : Number R) : Outcome (BlurLayer R) := do
  let padding ← (← radius.mul (.int 2)).ceil
  let w ← (← width.add (.int (padding * 2))).ceil
  let h ← (← height.add (.int (padding * 2))).ceil
  return ⟨radius, padding, w, h⟩

end BlurLayer

namespace Composition

/-- Parts of a clip under the names by which they are given, which need not be texts. -/
abbrev Parts (R : Type) := List (Json R × Json R)

/-- A name as a number, where it is one. A flag counts as one. -/
def nameNumber? : Json R → Option (Number R)
  | .num n => some n
  | .bool b => some (.int (if b then 1 else 0))
  | _ => none

/-- Whether two names are the same: equal texts or equal numbers. -/
def sameName : Json R → Json R → Bool
  | .str s, .str t => s == t
  | .null, .null => true
  | a, b =>
    match nameNumber? a, nameNumber? b with
    | some m, some n => m.eq n
    | _, _ => false

/-- The parts with the value under a name replaced, or added at the end. The name stays as it was
given first. -/
def setPart (part : Json R × Json R) : Parts R → Parts R
  | [] => [part]
  | p :: rest => if sameName p.1 part.1 then (p.1, part.2) :: rest else p :: setPart part rest

/-- The parts as members, each under the text of its name. -/
def partMembers (parts : Parts R) : Members R :=
  Members.ofList (parts.map fun p => (p.1.insertion, p.2))

/-- A pair of a name and a value, which a list of two is, a text of two characters, and the names of
an object with two members. Lists and objects are no names. -/
def clipPair (j : Json R) : Outcome (Json R × Json R) := do
  let items ← match j with
    | .arr items => pure items
    | .str s => pure ((Text.pointsOf s).map fun n => .str (Text.ofPoints [n]))
    | .obj ms => pure (ms.map fun m => .str m.1)
    | _ => numericFault .operand
  match items with
  | [.arr _, _] | [.obj _, _] => numericFault .operand
  | [name, value] => return (name, value)
  | _ => numericFault .value

/-- The parts that an object's clip has. Nothing stands for an empty clip, and a list of pairs for
an object. -/
def clipParts (j : Json R) : Outcome (Parts R) :=
  if !j.isFilled then .ok []
  else
    match j with
    | .obj ms => .ok (ms.map fun m => (.str m.1, m.2))
    | .str _ => numericFault .value
    | .arr items => do return (← items.mapM clipPair).foldl (fun parts p => setPart p parts) []
    | _ => numericFault .operand

/-- The part of a clip that a property name means, if it means one. -/
def clipPart? (name : String) : Option String :=
  let lead := "clip.".toList
  if lead.isPrefixOf name.toList then some (String.ofList (name.toList.drop lead.length)) else none

/-- Properties, the parts of the clip beside them, and whether one of these was sampled. -/
structure Merged (R : Type) where
  props : Members R
  clip : Parts R
  animated : Bool

/-- Puts one sampled value into the properties or into the clip. -/
def override (m : Merged R) (o : String × Json R) : Merged R :=
  match clipPart? o.1 with
  | some part => { m with clip := setPart (.str part, o.2) m.clip, animated := true }
  | none => { m with props := Members.insert o.1 o.2 m.props }

/-- The declared properties with sampled values put over them. A value for a part of the clip leaves
its other parts alone. -/
def mergeProps (declared overrides : Members R) : Outcome (Members R) := do
  let clip ← clipParts ((Members.get? "clip" declared).getD .null)
  let m := overrides.foldl override ⟨declared, clip, false⟩
  return if m.animated || !m.clip.isEmpty then
    Members.insert "clip" (.obj (partMembers m.clip)) m.props
  else m.props

/-- A time value of a compiled group as a number. -/
def windowEdge : Quantity R → Outcome (Number R)
  | .number n => n.toReal.map .real
  | .text s => ((Json.str s).toReal).map .real

/-- Whether a group is drawn at a frame: from its start, through its start and its duration. -/
def isVisible (info : GroupInfo R) (frame : Number R) : Outcome Bool := do
  match info.start with
  | none => return true
  | some s =>
    let start ← windowEdge s
    if frame.lt start then return false
    else
      match info.duration with
      | none => return true
      | some d =>
        let stop ← start.add (← windowEdge d)
        return !stop.lt frame

def height (o : Object R) : Number R :=
  match o.base.z with
  | some z => if z.isZero then .int 0 else z
  | none => .int 0

/-- Objects in the order in which they are drawn. -/
def paintOrder (objects : List (Object R)) : List (Object R) :=
  Order.arrange (fun o => (height o).isOrdered) (fun a b => (height a).lt (height b)) objects

/-- A property that is used as a number, refused if it is anything else. -/
def numberOr (default : Number R) (name : String) (props : Members R) : Outcome (Number R) :=
  match Members.get? name props with
  | none => .ok default
  | some (.num n) => .ok n
  | some (.bool b) => .ok (.int (if b then 1 else 0))
  | some _ => numericFault .operand

/-- Whether a scale is zero or below. -/
def isFlat (n : Number R) : Bool := n.le (.int 0)

/-- What an object hands down to its children: map, opacity and clips. -/
structure Surroundings (R : Type) where
  transform : Affine R
  opacity : Number R
  clips : List (ClipRect R)

/-- Where a document is drawn. -/
def Surroundings.outermost : Surroundings R := ⟨Affine.identity, Affine.one, []⟩

def clipRect (clip : Members R) (size : Size R) (offset : R × R) (transform : Affine R) :
    Outcome (ClipRect R) := do
  let x ← (← numberOr (.int 0) "x" clip).add (.real offset.1)
  let y ← (← numberOr (.int 0) "y" clip).add (.real offset.2)
  return {
    x := x
    y := y
    width := (Members.get? "width" clip).getD (.real size.width)
    height := (Members.get? "height" clip).getD (.real size.height)
    transform := transform }

/-- The clip rectangle that an object adds, if it adds one. -/
def ownClip (props : Members R) (size : Size R) (offset : R × R) (transform : Affine R) :
    Outcome (List (ClipRect R)) := do
  let clip := (Members.get? "clip" props).getD .null
  if !clip.isFilled then return []
  else
    match clip with
    | .obj ms => return [← clipRect ms size offset transform]
    | _ => throw .notAMapping

/-- The scales of an object, unless one of them leaves nothing to draw. -/
def scales (props : Members R) : Outcome (Option (Number R × Number R × Number R)) := do
  let scale ← numberOr (.int 1) "scale" props
  if isFlat scale then return none
  else
    let scaleX ← numberOr (.int 1) "scaleX" props
    if isFlat scaleX then return none
    else
      let scaleY ← numberOr (.int 1) "scaleY" props
      if isFlat scaleY then return none else return some (scale, scaleX, scaleY)

section

variable [Trig R]

/-- The map of an object within that of its parent: it is turned, scaled and moved, in this order. A
horizontal shift out of range is noticed before the vertical one is looked at. -/
def place (parent : Affine R) (props : Members R) (scale scaleX scaleY : Number R) :
    Outcome (Affine R) := do
  let x ← numberOr (.int 0) "x" props
  let _ ← x.toReal
  let y ← numberOr (.int 0) "y" props
  let moved ← parent.translate x y
  let scaled ← moved.scale (← scale.mul scaleX) (← scale.mul scaleY)
  scaled.rotate (← numberOr (.int 0) "rotation" props)

/-- What an object looks like inside its surroundings. -/
structure Placement (R : Type) where
  props : Members R
  size : Size R
  offset : R × R
  inner : Surroundings R

def placement (settings : Settings R) (measurer : Measurer R) (kind : String) (props : Members R)
    (outer : Surroundings R) : Outcome (Option (Placement R)) := do
  match ← scales props with
  | none => return none
  | some (scale, scaleX, scaleY) =>
    let transform ← place outer.transform props scale scaleX scaleY
    let opacity ← outer.opacity.mul (← numberOr (.int 1) "opacity" props)
    let size ← measure settings measurer kind props
    let anchor ← Anchor.ofProperty (Members.get? "anchor" props)
    let offset ← anchor.offset (.real size.width) (.real size.height)
    let clips ← ownClip props size offset transform
    return some ⟨props, size, offset, ⟨transform, opacity, outer.clips ++ clips⟩⟩

def blurOf (props : Members R) (size : Size R) : Outcome (Option (BlurLayer R)) := do
  let value := (Members.get? "blur" props).getD (.int 0)
  if !value.isFilled then return none
  else
    let radius ← numberOr (.int 0) "blur" props
    if (Number.int 0).lt radius then
      return some (← BlurLayer.around radius (.real size.width) (.real size.height))
    else return none

def propsAt (settings : Settings R) (sampler : Sampler R) (o : Object R) (frame : Number R) :
    Outcome (Members R) := do
  let overrides ← match o.id with
    | none => pure []
    | some id => if id == "" then pure [] else sampler.sampleTarget settings id frame
  mergeProps o.staticProps (overrides.map fun v => (v.1, Json.ofQuantity v.2))

def item (o : Object R) (p : Placement R) : Outcome (DrawItem R) := do
  let blur ← blurOf p.props p.size
  return ⟨o.id, o.kind, p.props, p.inner.transform, p.inner.opacity, p.size, p.offset,
    p.inner.clips, blur⟩

abbrev Painter (R : Type) := List (Object R) → Surroundings R → Outcome (List (DrawItem R))

/-- The items of one object, given how its children are drawn. -/
def paintObject (inner : Painter R) (settings : Settings R) (measurer : Measurer R)
    (sampler : Sampler R) (frame : Number R) (outer : Surroundings R) (o : Object R) :
    Outcome (List (DrawItem R)) := do
  let visible ← match o with
    | .group _ _ info _ => isVisible info frame
    | _ => pure true
  if !visible then return []
  else
    let props ← propsAt settings sampler o frame
    match ← placement settings measurer o.kind props outer with
    | none => return []
    | some p =>
      match o with
      | .group _ cs _ _ => inner cs p.inner
      | _ => return [← item o p]

def paint (settings : Settings R) (measurer : Measurer R) (sampler : Sampler R)
    (frame : Number R) : Nat → Painter R
  | 0, _, _ => .ok []
  | depth + 1, objects, outer => do
    let items ← (paintOrder objects).mapM
      (paintObject (paint settings measurer sampler frame depth) settings measurer sampler frame
        outer)
    return items.flatten

mutual

def depth : Object R → Nat
  | .group _ cs _ _ => depthOfAll cs + 1
  | .shape .. => 1
  | .reference .. => 1

def depthOfAll : List (Object R) → Nat
  | [] => 0
  | o :: rest => max (depth o) (depthOfAll rest)

end

/-- The items of a timeline at a frame, in the order in which they are drawn. -/
def compose (settings : Settings R) (measurer : Measurer R) (sampler : Sampler R)
    (objects : List (Object R)) (frame : Number R) : Outcome (List (DrawItem R)) :=
  paint settings measurer sampler frame (depthOfAll objects + 1) objects Surroundings.outermost

end

end Composition

namespace DrawItem

def entry (n : Number R) : Json R := .num n

/-- A map as its six entries. -/
def transformJson (m : Affine R) : Json R := .arr (m.entries.map entry)

def pairJson (p : R × R) : Json R := .arr [.real p.1, .real p.2]

def clipJson (c : ClipRect R) : Json R :=
  .obj [("x", entry c.x), ("y", entry c.y), ("width", c.width), ("height", c.height),
    ("transform", transformJson c.transform)]

def blurJson : Option (BlurLayer R) → Json R
  | none => .null
  | some b =>
    .obj [("radius", entry b.radius), ("padding", .int b.padding), ("width", .int b.width),
      ("height", .int b.height)]

def toJson (i : DrawItem R) : Json R :=
  .obj [
    ("id", (i.id.map Json.str).getD .null),
    ("type", .str i.kind),
    ("props", .obj i.props),
    ("transform", transformJson i.transform),
    ("opacity", entry i.opacity),
    ("size", pairJson (i.size.width, i.size.height)),
    ("anchorOffset", pairJson i.anchorOffset),
    ("clips", .arr (i.clips.map clipJson)),
    ("blur", blurJson i.blur)]

end DrawItem

end Storyboard
