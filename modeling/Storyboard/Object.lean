import Storyboard.Animation

namespace Storyboard

/-- The point of an object that lies at its position. -/
inductive Anchor where
  | topLeft
  | topCenter
  | topRight
  | centerLeft
  | center
  | centerRight
  | bottomLeft
  | bottomCenter
  | bottomRight
  deriving DecidableEq, Repr

namespace Anchor

def name : Anchor → String
  | topLeft => "top-left"
  | topCenter => "top-center"
  | topRight => "top-right"
  | centerLeft => "center-left"
  | center => "center"
  | centerRight => "center-right"
  | bottomLeft => "bottom-left"
  | bottomCenter => "bottom-center"
  | bottomRight => "bottom-right"

def all : List Anchor :=
  [topLeft, topCenter, topRight, centerLeft, center, centerRight, bottomLeft, bottomCenter,
    bottomRight]

def ofName? (name : String) : Option Anchor := all.find? fun a => a.name == name

theorem ofName?_name (a : Anchor) : ofName? a.name = some a := by cases a <;> decide

end Anchor

/-- Where the lines of a text begin. -/
inductive Alignment where
  | left
  | center
  | right
  deriving DecidableEq, Repr

namespace Alignment

def name : Alignment → String
  | left => "left"
  | center => "center"
  | right => "right"

def ofName? (name : String) : Option Alignment :=
  [left, center, right].find? fun a => a.name == name

theorem ofName?_name (a : Alignment) : ofName? a.name = some a := by cases a <;> decide

end Alignment

/-- A clip rectangle in the space of its object, in lengths or percentages of the object's size. -/
structure Clip (R : Type) where
  x : Option (Quantity R)
  y : Option (Quantity R)
  width : Option (Quantity R)
  height : Option (Quantity R)
  extras : Members R

/-- What every object can declare. -/
structure Base (R : Type) where
  id : Option String
  x : Option (Number R)
  y : Option (Number R)
  rotation : Option (Number R)
  opacity : Option (Number R)
  scale : Option (Number R)
  scaleX : Option (Number R)
  scaleY : Option (Number R)
  z : Option (Number R)
  anchor : Option Anchor
  clip : Option (Clip R)
  blur : Option (Number R)

/-- How the outline of a shape is drawn. -/
structure Stroke (R : Type) where
  color : Option String
  width : Option (Number R)

structure TextShape (R : Type) where
  content : Option String
  font : Option String
  size : Option (Number R)
  color : Option String
  align : Option Alignment
  bold : Option Bool
  italic : Option Bool
  underline : Option Bool
  stroke : Stroke R

structure Image (R : Type) where
  source : Option String
  width : Option (Number R)
  height : Option (Number R)

structure Rect (R : Type) where
  width : Option (Number R)
  height : Option (Number R)
  fill : Option String
  stroke : Stroke R

/-- A line from the position of the object to another point. -/
structure Line (R : Type) where
  x2 : Option (Number R)
  y2 : Option (Number R)
  stroke : Stroke R

structure Point (R : Type) where
  radius : Option (Number R)
  fill : Option String

structure Circle (R : Type) where
  radius : Option (Number R)
  fill : Option String
  stroke : Stroke R

structure Ellipse (R : Type) where
  radiusX : Option (Number R)
  radiusY : Option (Number R)
  fill : Option String
  stroke : Stroke R

/-- The end of a straight step of a path. -/
structure Position (R : Type) where
  x : R
  y : R

/-- A step along a curve with one control point. -/
structure QuadraticCurve (R : Type) where
  cpx : R
  cpy : R
  x : R
  y : R

structure BezierCurve (R : Type) where
  cp1x : R
  cp1y : R
  cp2x : R
  cp2y : R
  x : R
  y : R

structure Arc (R : Type) where
  x : R
  y : R
  radius : R
  startAngle : R
  endAngle : R
  counterclockwise : Option Bool

/-- A step along a part of a circle that touches two lines. -/
structure TangentArc (R : Type) where
  x1 : R
  y1 : R
  x2 : R
  y2 : R
  radius : R

inductive PathStep (R : Type) where
  | moveTo (p : Position R)
  | lineTo (p : Position R)
  | closePath
  | quadraticCurveTo (c : QuadraticCurve R)
  | bezierCurveTo (c : BezierCurve R)
  | arc (a : Arc R)
  | arcTo (a : TangentArc R)

structure PathCommand (R : Type) where
  step : PathStep R
  extras : Members R

/-- An outline of steps. -/
structure Path (R : Type) where
  commands : List (PathCommand R)
  fill : Option String
  stroke : Stroke R

inductive Shape (R : Type) where
  | text (t : TextShape R)
  | image (i : Image R)
  | rect (r : Rect R)
  | line (l : Line R)
  | point (p : Point R)
  | circle (c : Circle R)
  | ellipse (e : Ellipse R)
  | path (p : Path R)

/-- What a group declares beside its children. `expandedFrom` is the file that a group stands for,
and `resolved` holds that file's animations, in absolute frames. -/
structure GroupInfo (R : Type) where
  start : Option (Quantity R)
  duration : Option (Quantity R)
  speed : Option R
  animations : List (Entry R)
  transition : Option (GroupTransition R)
  expandedFrom : Option String
  resolved : List (Entry R)

/-- The two kinds of files that are referred to. Components take parameters. -/
inductive ReferenceKind (R : Type) where
  | component (params : Members R)
  | scene

structure Reference (R : Type) where
  kind : ReferenceKind R
  source : Option String
  start : Option (Quantity R)
  duration : Option (Quantity R)
  transition : Option (GroupTransition R)

/-- An object of a scene. -/
inductive Object (R : Type) where
  | shape (base : Base R) (shape : Shape R) (extras : Members R)
  | group (base : Base R) (children : List (Object R)) (info : GroupInfo R) (extras : Members R)
  | reference (base : Base R) (ref : Reference R) (extras : Members R)

namespace Shape

variable {R : Type}

def kind : Shape R → String
  | text .. => "text"
  | image .. => "image"
  | rect .. => "rect"
  | line .. => "line"
  | point .. => "point"
  | circle .. => "circle"
  | ellipse .. => "ellipse"
  | path .. => "path"

end Shape

namespace ReferenceKind

variable {R : Type}

def name : ReferenceKind R → String
  | component _ => "component"
  | scene => "scene"

end ReferenceKind

namespace Object

variable {R : Type}

def base : Object R → Base R
  | shape b _ _ => b
  | group b _ _ _ => b
  | reference b _ _ => b

/-- What was given with the object beside its declared fields. -/
def extras : Object R → Members R
  | shape _ _ e => e
  | group _ _ _ e => e
  | reference _ _ e => e

def id (o : Object R) : Option String := o.base.id

def children : Object R → List (Object R)
  | group _ cs _ _ => cs
  | _ => []

def kind : Object R → String
  | shape _ s _ => s.kind
  | group .. => "group"
  | reference _ r _ => r.kind.name

def withBase (o : Object R) (b : Base R) : Object R :=
  match o with
  | shape _ s e => shape b s e
  | group _ cs i e => group b cs i e
  | reference _ r e => reference b r e

def withId (o : Object R) (id : Option String) : Object R := o.withBase { o.base with id := id }

def withClip (o : Object R) (clip : Option (Clip R)) : Object R :=
  o.withBase { o.base with clip := clip }

@[simp] theorem base_withBase (o : Object R) (b : Base R) : (o.withBase b).base = b := by
  cases o <;> rfl

@[simp] theorem id_withId (o : Object R) (i : Option String) : (o.withId i).id = i := by
  simp [withId, id]

@[simp] theorem children_withBase (o : Object R) (b : Base R) :
    (o.withBase b).children = o.children := by
  cases o <;> rfl

@[simp] theorem kind_withBase (o : Object R) (b : Base R) : (o.withBase b).kind = o.kind := by
  cases o <;> rfl

end Object

end Storyboard
