import Storyboard.Address
import Storyboard.Easing
import Storyboard.Object.Schema
import Storyboard.Order

namespace Storyboard

/-- The properties that can be animated on every object. -/
def commonProperties : List String :=
  ["x", "y", "opacity", "rotation", "scale", "scaleX", "scaleY", "blur", "clip.x", "clip.y",
    "clip.width", "clip.height"]

/-- The properties that can be animated on objects of a kind. -/
def kindProperties (kind : String) : List String :=
  match kind with
  | "rect" | "image" => ["width", "height"]
  | "circle" => ["radius"]
  | "ellipse" => ["radiusX", "radiusY"]
  | "text" => ["content", "size", "color", "font", "align"]
  | "line" => ["x2", "y2", "stroke", "strokeWidth"]
  | _ => []

namespace Object

variable {R : Type}

/-- Whether an object has a value under a name beside its declared fields. -/
def hasExtra (name : String) (o : Object R) : Bool :=
  match Members.get? name o.extras with
  | some j => !j.isNull
  | none => false

def hasFill (o : Object R) : Bool :=
  match o with
  | shape _ s _ =>
    match s with
    | .rect r => r.fill.isSome
    | .point p => p.fill.isSome
    | .circle c => c.fill.isSome
    | .ellipse e => e.fill.isSome
    | .path p => p.fill.isSome
    | .text _ | .image _ | .line _ => o.hasExtra "fill"
  | group .. | reference .. => o.hasExtra "fill"

def hasStroke (o : Object R) : Bool :=
  match o with
  | shape _ s _ =>
    match s with
    | .text t => t.stroke.color.isSome
    | .rect r => r.stroke.color.isSome
    | .line l => l.stroke.color.isSome
    | .circle c => c.stroke.color.isSome
    | .ellipse e => e.stroke.color.isSome
    | .path p => p.stroke.color.isSome
    | .image _ | .point _ => o.hasExtra "stroke"
  | group .. | reference .. => o.hasExtra "stroke"

def canAnimate (o : Object R) (property : String) : Bool :=
  commonProperties.contains property || (kindProperties o.kind).contains property ||
    (property == "fill" && o.hasFill) || (property == "stroke" && o.hasStroke)

/-- The properties of an object that can be animated, in ascending order. -/
def animatable (o : Object R) : List String :=
  let all := commonProperties ++ kindProperties o.kind ++ (if o.hasFill then ["fill"] else []) ++
    (if o.hasStroke && !(kindProperties o.kind).contains "stroke" then ["stroke"] else [])
  Order.sort (fun a b => decide (a < b)) all

end Object

namespace Track

variable {R : Type} [Scalar R]

/-- Refuses keyframes with a value for an easing that means none. -/
def checkEasings (source property : String) : Nat → List (Keyframe R) → Outcome Unit
  | _, [] => .ok ()
  | index, k :: rest => do
    Easing.checkOption (keyframeContext source property index) k.easing
    checkEasings source property (index + 1) rest

/-- Refuses a track without a target in the tree, for a property that its target does not have, or
with an easing that is none. -/
def check (objects : List (Object R)) (t : Track R) : Outcome Unit := do
  match Address.find objects t.target "" with
  | none => throw (.unknownTarget t.target t.property)
  | some o =>
    if o.canAnimate t.property then
      checkEasings ("animation " ++ quote t.target) t.property 0 t.keyframes
    else throw (.foreignProperty t.property t.target o.kind o.animatable)

/-- Refuses tracks, in order, as soon as one is refused. -/
def checkAll (objects : List (Object R)) : List (Track R) → Outcome Unit
  | [] => .ok ()
  | t :: rest => do
    check objects t
    checkAll objects rest

end Track

end Storyboard
