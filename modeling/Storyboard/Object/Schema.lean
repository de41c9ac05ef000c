import Storyboard.Object

namespace Storyboard

variable {R : Type} [Scalar R]

namespace Clip

def fields : Fields R (Clip R) (Clip R) :=
  mk <$> Fields.optional "x" Codec.quantity x
    <*> Fields.optional "y" Codec.quantity y
    <*> Fields.optional "width" Codec.quantity width
    <*> Fields.optional "height" Codec.quantity height
    <*> Fields.rest extras

def codec : Codec R (Clip R) := fields.record

end Clip

def Base.fields : Fields R (Base R) (Base R) :=
  mk <$> Fields.optional "id" Codec.text id
    <*> Fields.optional "x" Codec.number x
    <*> Fields.optional "y" Codec.number y
    <*> Fields.optional "rotation" Codec.number rotation
    <*> Fields.optional "opacity" Codec.number opacity
    <*> Fields.optional "scale" Codec.number scale
    <*> Fields.optional ⟨"scaleX", "scale_x"⟩ Codec.number scaleX
    <*> Fields.optional ⟨"scaleY", "scale_y"⟩ Codec.number scaleY
    <*> Fields.optional "z" Codec.number z
    <*> Fields.optional "anchor" (Codec.choice Anchor.ofName? Anchor.name) anchor
    <*> Fields.optional "clip" Clip.codec clip
    <*> Fields.optional "blur" Codec.number blur

def Stroke.fields : Fields R (Stroke R) (Stroke R) :=
  mk <$> Fields.optional "stroke" Codec.text color
    <*> Fields.optional ⟨"strokeWidth", "stroke_width"⟩ Codec.number width

def TextShape.fields : Fields R (TextShape R) (TextShape R) :=
  mk <$> Fields.optional "content" Codec.text content
    <*> Fields.optional "font" Codec.text font
    <*> Fields.optional "size" Codec.number size
    <*> Fields.optional "color" Codec.text color
    <*> Fields.optional "align" (Codec.choice Alignment.ofName? Alignment.name) align
    <*> Fields.optional "bold" Codec.flag bold
    <*> Fields.optional "italic" Codec.flag italic
    <*> Fields.optional "underline" Codec.flag underline
    <*> Stroke.fields.within stroke

def Image.fields : Fields R (Image R) (Image R) :=
  mk <$> Fields.optional "source" Codec.text source
    <*> Fields.optional "width" Codec.number width
    <*> Fields.optional "height" Codec.number height

def Rect.fields : Fields R (Rect R) (Rect R) :=
  mk <$> Fields.optional "width" Codec.number width
    <*> Fields.optional "height" Codec.number height
    <*> Fields.optional "fill" Codec.text fill
    <*> Stroke.fields.within stroke

def Line.fields : Fields R (Line R) (Line R) :=
  mk <$> Fields.optional "x2" Codec.number x2
    <*> Fields.optional "y2" Codec.number y2
    <*> Stroke.fields.within stroke

def Point.fields : Fields R (Point R) (Point R) :=
  mk <$> Fields.optional "radius" Codec.number radius
    <*> Fields.optional "fill" Codec.text fill

def Circle.fields : Fields R (Circle R) (Circle R) :=
  mk <$> Fields.optional "radius" Codec.number radius
    <*> Fields.optional "fill" Codec.text fill
    <*> Stroke.fields.within stroke

def Ellipse.fields : Fields R (Ellipse R) (Ellipse R) :=
  mk <$> Fields.optional ⟨"radiusX", "radius_x"⟩ Codec.number radiusX
    <*> Fields.optional ⟨"radiusY", "radius_y"⟩ Codec.number radiusY
    <*> Fields.optional "fill" Codec.text fill
    <*> Stroke.fields.within stroke

def Position.fields : Fields R (Position R) (Position R) :=
  mk <$> Fields.required "x" Codec.scalar x
    <*> Fields.required "y" Codec.scalar y

def QuadraticCurve.fields : Fields R (QuadraticCurve R) (QuadraticCurve R) :=
  mk <$> Fields.required "cpx" Codec.scalar cpx
    <*> Fields.required "cpy" Codec.scalar cpy
    <*> Fields.required "x" Codec.scalar x
    <*> Fields.required "y" Codec.scalar y

def BezierCurve.fields : Fields R (BezierCurve R) (BezierCurve R) :=
  mk <$> Fields.required ⟨"cp1X", "cp1x"⟩ Codec.scalar cp1x
    <*> Fields.required ⟨"cp1Y", "cp1y"⟩ Codec.scalar cp1y
    <*> Fields.required ⟨"cp2X", "cp2x"⟩ Codec.scalar cp2x
    <*> Fields.required ⟨"cp2Y", "cp2y"⟩ Codec.scalar cp2y
    <*> Fields.required "x" Codec.scalar x
    <*> Fields.required "y" Codec.scalar y

def Arc.fields : Fields R (Arc R) (Arc R) :=
  mk <$> Fields.required "x" Codec.scalar x
    <*> Fields.required "y" Codec.scalar y
    <*> Fields.required "radius" Codec.scalar radius
    <*> Fields.required ⟨"startAngle", "start_angle"⟩ Codec.scalar startAngle
    <*> Fields.required ⟨"endAngle", "end_angle"⟩ Codec.scalar endAngle
    <*> Fields.optional "counterclockwise" Codec.flag counterclockwise

def TangentArc.fields : Fields R (TangentArc R) (TangentArc R) :=
  mk <$> Fields.required "x1" Codec.scalar x1
    <*> Fields.required "y1" Codec.scalar y1
    <*> Fields.required "x2" Codec.scalar x2
    <*> Fields.required "y2" Codec.scalar y2
    <*> Fields.required "radius" Codec.scalar radius

namespace PathCommand

def tagged {α : Type} (kind : String) (f : Fields R α α) :
    Fields R (α × Members R) (α × Members R) :=
  (fun _ a e => (a, e)) <$> Fields.tag "type" kind <*> f.within Prod.fst <*> Fields.rest Prod.snd

def readAs {α : Type} (kind : String) (f : Fields R α α) (toStep : α → PathStep R) (j : Json R) :
    Checked (PathCommand R) :=
  Checked.under (.key kind) (((tagged kind f).record.read j).map fun p => ⟨toStep p.1, p.2⟩)

def read (j : Json R) : Checked (PathCommand R) :=
  match j with
  | .obj ms =>
    match Members.get? "type" ms with
    | some (.str "moveTo") => readAs "moveTo" Position.fields .moveTo j
    | some (.str "lineTo") => readAs "lineTo" Position.fields .lineTo j
    | some (.str "closePath") => readAs "closePath" (Fields.const ()) (fun _ => .closePath) j
    | some (.str "quadraticCurveTo") =>
      readAs "quadraticCurveTo" QuadraticCurve.fields .quadraticCurveTo j
    | some (.str "bezierCurveTo") => readAs "bezierCurveTo" BezierCurve.fields .bezierCurveTo j
    | some (.str "arc") => readAs "arc" Arc.fields .arc j
    | some (.str "arcTo") => readAs "arcTo" TangentArc.fields .arcTo j
    | some _ => Checked.fail .tagUnknown
    | none => Checked.fail .tagMissing
  | _ => Checked.fail .notAttributes

def write (c : PathCommand R) : Json R :=
  match c.step with
  | .moveTo p => (tagged "moveTo" Position.fields).record.write (p, c.extras)
  | .lineTo p => (tagged "lineTo" Position.fields).record.write (p, c.extras)
  | .closePath => (tagged "closePath" (Fields.const ())).record.write ((), c.extras)
  | .quadraticCurveTo q =>
    (tagged "quadraticCurveTo" QuadraticCurve.fields).record.write (q, c.extras)
  | .bezierCurveTo b => (tagged "bezierCurveTo" BezierCurve.fields).record.write (b, c.extras)
  | .arc a => (tagged "arc" Arc.fields).record.write (a, c.extras)
  | .arcTo a => (tagged "arcTo" TangentArc.fields).record.write (a, c.extras)

def codec : Codec R (PathCommand R) := ⟨read, write⟩

end PathCommand

def Path.fields : Fields R (Path R) (Path R) :=
  mk <$> Fields.defaulted "commands" (Codec.list PathCommand.codec) [] commands
    <*> Fields.optional "fill" Codec.text fill
    <*> Stroke.fields.within stroke

/-- A group's own fields around its children, which are values of any type with a codec. -/
structure GroupParts (R χ : Type) where
  children : List χ
  info : GroupInfo R

namespace GroupParts

variable {χ : Type}

/-- A group by its parts in the order in which they are written. -/
def ofParts (children : List χ) (start duration : Option (Quantity R)) (speed : Option R)
    (animations : List (Entry R)) (transition : Option (GroupTransition R))
    (expandedFrom : Option String) (resolved : List (Entry R)) : GroupParts R χ :=
  ⟨children, ⟨start, duration, speed, animations, transition, expandedFrom, resolved⟩⟩

/-- The fields of a group, inside which there are so many levels. -/
def fields (room : Nat) (child : Codec R χ) : Fields R (GroupParts R χ) (GroupParts R χ) :=
  ofParts <$> Fields.defaulted "children" (Codec.list child) [] children
    <*> Fields.optional "start" Codec.quantity (·.info.start)
    <*> Fields.optional "duration" Codec.quantity (·.info.duration)
    <*> Fields.optional ⟨"animationSpeed", "animation_speed"⟩ Codec.scalar (·.info.speed)
    <*> Fields.defaulted "animations" (Codec.list (Entry.codec room)) [] (·.info.animations)
    <*> Fields.optional "transition" (GroupTransition.codec room) (·.info.transition)
    <*> Fields.optional ⟨"expandedFrom", "expanded_from"⟩ Codec.text (·.info.expandedFrom)
    <*> Fields.defaulted ⟨"resolvedAnimations", "resolved_animations"⟩
      (Codec.list (Entry.codec room)) [] (·.info.resolved)

end GroupParts

/-- The fields that components and scenes have in common, the parameters left out. -/
structure SceneParts (R : Type) where
  source : Option String
  start : Option (Quantity R)
  duration : Option (Quantity R)
  transition : Option (GroupTransition R)

/-- The fields of a scene reference, inside which there are so many levels. -/
def SceneParts.fields (room : Nat) : Fields R (SceneParts R) (SceneParts R) :=
  mk <$> Fields.optional "source" Codec.text source
    <*> Fields.optional "start" Codec.quantity start
    <*> Fields.optional "duration" Codec.quantity duration
    <*> Fields.optional "transition" (GroupTransition.codec room) transition

structure ComponentParts (R : Type) where
  source : Option String
  start : Option (Quantity R)
  duration : Option (Quantity R)
  params : Members R
  transition : Option (GroupTransition R)

def ComponentParts.fields (room : Nat) : Fields R (ComponentParts R) (ComponentParts R) :=
  mk <$> Fields.optional "source" Codec.text source
    <*> Fields.optional "start" Codec.quantity start
    <*> Fields.optional "duration" Codec.quantity duration
    <*> Fields.defaulted "params" (Codec.map Codec.raw) [] params
    <*> Fields.optional "transition" (GroupTransition.codec room) transition

namespace Object

/-- How many records may stand inside one another. -/
def maxLevels : Nat := 255

def declared {α : Type} (kind : String) (f : Fields R α α) : Fields R (Base R × α) (Base R × α) :=
  (fun b _ a => (b, a)) <$> Base.fields.within Prod.fst <*> Fields.tag "type" kind
    <*> f.within Prod.snd

def tagged {α : Type} (kind : String) (f : Fields R α α) :
    Fields R ((Base R × α) × Members R) ((Base R × α) × Members R) :=
  (fun d e => (d, e)) <$> (declared kind f).within Prod.fst <*> Fields.rest Prod.snd

def readAs {α : Type} (kind : String) (f : Fields R α α)
    (toObject : Base R → α → Members R → Object R) (j : Json R) : Checked (Object R) :=
  ((tagged kind f).record.read j).map fun p => toObject p.1.1 p.1.2 p.2

def ofComponent (b : Base R) (c : ComponentParts R) (e : Members R) : Object R :=
  .reference b ⟨.component c.params, c.source, c.start, c.duration, c.transition⟩ e

def ofScene (b : Base R) (s : SceneParts R) (e : Members R) : Object R :=
  .reference b ⟨.scene, s.source, s.start, s.duration, s.transition⟩ e

/-- What may stand at a place: how many levels there are inside a shape or a reference, and how many
inside a group with the way in which its children are read. What is absent may not stand there. -/
structure Nest (R : Type) where
  leaf : Option Nat
  group : Option (Nat × (Json R → Checked (Object R)))

def readShape {α : Type} (kind : String) (f : Fields R α α) (toShape : α → Shape R) (j : Json R) :
    Checked (Object R) :=
  readAs kind f (fun b a => .shape b (toShape a)) j

/-- Reads a group inside which there are so many levels, its children in a given way. -/
def readGroup (room : Nat) (child : Json R → Checked (Object R)) (j : Json R) :
    Checked (Object R) :=
  readAs "group" (GroupParts.fields room ⟨child, fun _ => .null⟩)
    (fun b g => .group b g.children g.info) j

/-- How an object of a kind that is no group is read, if there is that kind. Inside it there are so
many levels. -/
def readLeaf? (room : Nat) (kind : String) : Option (Json R → Checked (Object R)) :=
  match kind with
  | "text" => some (readShape kind TextShape.fields .text)
  | "image" => some (readShape kind Image.fields .image)
  | "rect" => some (readShape kind Rect.fields .rect)
  | "line" => some (readShape kind Line.fields .line)
  | "point" => some (readShape kind Point.fields .point)
  | "circle" => some (readShape kind Circle.fields .circle)
  | "ellipse" => some (readShape kind Ellipse.fields .ellipse)
  | "path" => some (readShape kind Path.fields .path)
  | "component" => some (readAs kind (ComponentParts.fields room) ofComponent)
  | "scene" => some (readAs kind (SceneParts.fields room) ofScene)
  | _ => none

/-- How an object of a kind is read, if there is that kind. -/
def readKind? (nest : Nest R) (kind : String) : Option (Json R → Checked (Object R)) :=
  let refuse (_ : Json R) : Checked (Object R) := Checked.fail .nestedTooDeep
  if kind == "group" then
    some <| match nest.group with
      | some (room, child) => readGroup room child
      | none => refuse
  else
    (readLeaf? (nest.leaf.getD 0) kind).map fun read => if nest.leaf.isSome then read else refuse

/-- Reads an object whose kind is named by its member `type`. -/
def readTagged (nest : Nest R) (j : Json R) : Checked (Object R) :=
  match j with
  | .obj ms =>
    match Members.get? "type" ms with
    | none => Checked.fail .tagMissing
    | some (.str kind) =>
      match readKind? nest kind with
      | some readIt => (readIt j).under (.key kind)
      | none => Checked.fail .tagUnknown
    | some _ => Checked.fail .tagUnknown
  | _ => Checked.fail .notAttributes

/-- Reads an object with so many levels. Every group takes up one of them, and any other object does
if `leavesCount`. -/
def read (leavesCount : Bool) : Nat → Json R → Checked (Object R)
  | 0 => readTagged ⟨if leavesCount then none else some 0, none⟩
  | room + 1 =>
    readTagged ⟨some (if leavesCount then room else room + 1), some (room, read leavesCount room)⟩

def written {α : Type} (kind : String) (f : Fields R α α) (b : Base R) (a : α) : Members R :=
  (declared kind f).write (b, a)

/-- The declared members of an object whose children are written as given. -/
def members (children : List (Json R)) : Object R → Members R
  | .shape b s _ =>
    match s with
    | .text t => written "text" TextShape.fields b t
    | .image i => written "image" Image.fields b i
    | .rect r => written "rect" Rect.fields b r
    | .line l => written "line" Line.fields b l
    | .point p => written "point" Point.fields b p
    | .circle c => written "circle" Circle.fields b c
    | .ellipse e => written "ellipse" Ellipse.fields b e
    | .path p => written "path" Path.fields b p
  | .group b _ info _ =>
    written "group" (GroupParts.fields maxLevels Codec.raw) b ⟨children, info⟩
  | .reference b r _ =>
    match r.kind with
    | .component params =>
      written "component" (ComponentParts.fields maxLevels) b
        ⟨r.source, r.start, r.duration, params, r.transition⟩
    | .scene =>
      written "scene" (SceneParts.fields maxLevels) b ⟨r.source, r.start, r.duration, r.transition⟩

mutual

def write : Object R → Json R
  | .group b cs info e => .obj (members (writeAll cs) (.group b cs info e) ++
      e.filter fun m => !m.2.isNull)
  | .shape b s e => .obj (members [] (.shape b s e) ++ e.filter fun m => !m.2.isNull)
  | .reference b r e => .obj (members [] (.reference b r e) ++ e.filter fun m => !m.2.isNull)

def writeAll : List (Object R) → List (Json R)
  | [] => []
  | o :: rest => write o :: writeAll rest

end

/-- Objects of a document, where every object takes up a level. -/
def codec : Codec R (Object R) := ⟨read true maxLevels, write⟩

/-- Objects of a list outside of any document. Only groups take up levels there, of which there is
one less. -/
def looseCodec : Codec R (Object R) := ⟨read false (maxLevels - 1), write⟩

/-- What may stand outside of any document and list. -/
def alone : Nest R :=
  ⟨some maxLevels, some (maxLevels - 1, read false (maxLevels - 1))⟩

/-- The names of members that are structure and not drawn. -/
def structural : List String := ["children", "animations", "resolvedAnimations", "commands"]

/-- The names under which structure is left out also where it is no declared member. -/
def structuralExtras : List String := ["children", "animations", "resolved_animations", "commands"]

/-- The declared properties that can be drawn or animated, in the order in which they are
written. -/
def staticProps (o : Object R) : Members R :=
  ((members [] o).filter fun m => !structural.contains m.1) ++
    o.extras.filter fun m => !m.2.isNull && !structuralExtras.contains m.1

end Object

end Storyboard
