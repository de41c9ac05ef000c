import Storyboard.Proofs.Rereading.Fields

namespace Storyboard

/-- The names of what every object can declare. -/
def Base.names : List FieldName :=
  ["id", "x", "y", "rotation", "opacity", "scale", ⟨"scaleX", "scale_x"⟩, ⟨"scaleY", "scale_y"⟩,
    "z", "anchor", "clip", "blur"]

def Stroke.names : List FieldName := ["stroke", ⟨"strokeWidth", "stroke_width"⟩]

/-- The records that are read and written by themselves. -/
inductive Model where
  | plain
  | keyframe
  | track
  | effectUse
  | effectKeyframe
  | effect
  | transition
  | groupTransition
  | clip
  | base
  | text
  | image
  | rect
  | line
  | point
  | circle
  | ellipse
  | path
  | group
  | componentReference
  | sceneReference
  | moveTo
  | lineTo
  | closePath
  | quadraticCurve
  | bezierCurve
  | arc
  | tangentArc
  | parameter
  | component
  | scene
  | project
  | document
  | timeline

namespace Model

/-- The names of an object with such fields of its own. -/
def objectNames (own : List FieldName) : List FieldName :=
  Base.names ++ [FieldName.same "type"] ++ own

/-- The names of an object with an outline and such fields of its own. -/
def outlinedNames (own : List FieldName) : List FieldName := objectNames (own ++ Stroke.names)

def names : Model → List FieldName
  | plain => []
  | keyframe => ["start", "value", "easing"]
  | track => ["target", "property", "keyframes"]
  | effectUse => ["target", "effect", "start", "duration"]
  | effectKeyframe => ["time", "value", "easing"]
  | effect => ["description", "duration", "properties"]
  | transition => ["effect", "duration"]
  | groupTransition => [⟨"in", "in_"⟩, "out"]
  | clip => ["x", "y", "width", "height"]
  | base => Base.names
  | text =>
    outlinedNames ["content", "font", "size", "color", "align", "bold", "italic", "underline"]
  | image => objectNames ["source", "width", "height"]
  | rect => outlinedNames ["width", "height", "fill"]
  | line => outlinedNames ["x2", "y2"]
  | point => objectNames ["radius", "fill"]
  | circle => outlinedNames ["radius", "fill"]
  | ellipse => outlinedNames [⟨"radiusX", "radius_x"⟩, ⟨"radiusY", "radius_y"⟩, "fill"]
  | path => outlinedNames ["commands", "fill"]
  | group => objectNames ["children", "start", "duration", ⟨"animationSpeed", "animation_speed"⟩,
      "animations", "transition", ⟨"expandedFrom", "expanded_from"⟩,
      ⟨"resolvedAnimations", "resolved_animations"⟩]
  | componentReference => objectNames ["source", "start", "duration", "params", "transition"]
  | sceneReference => objectNames ["source", "start", "duration", "transition"]
  | moveTo | lineTo => ["type", "x", "y"]
  | closePath => ["type"]
  | quadraticCurve => ["type", "cpx", "cpy", "x", "y"]
  | bezierCurve => ["type", ⟨"cp1X", "cp1x"⟩, ⟨"cp1Y", "cp1y"⟩, ⟨"cp2X", "cp2x"⟩,
      ⟨"cp2Y", "cp2y"⟩, "x", "y"]
  | arc => ["type", "x", "y", "radius", ⟨"startAngle", "start_angle"⟩, ⟨"endAngle", "end_angle"⟩,
      "counterclockwise"]
  | tangentArc => ["type", "x1", "y1", "x2", "y2", "radius"]
  | parameter => ["type", "default"]
  | component => ["parameters", "objects", "animations", "width", "height"]
  | scene => ["duration", "objects", "animations"]
  | project => ["width", "height", "fps", "frames"]
  | document => ["project", ⟨"animationSpeed", "animation_speed"⟩, "objects", "animations"]
  | timeline => ["project", "objects", "animations"]

theorem usable (m : Model) : Fields.Usable m.names := by
  cases m <;> decide +kernel

end Model

end Storyboard
