import Storyboard.Schema.Basic

namespace Storyboard

/-- A value at a time, and the easing of the way to it. -/
structure Keyframe (R : Type) where
  start : Quantity R
  value : Quantity R
  easing : Option (Json R)
  extras : Members R

/-- The keyframes of one property of a target. -/
structure Track (R : Type) where
  target : String
  property : String
  keyframes : List (Keyframe R)
  extras : Members R

structure EffectUse (R : Type) where
  target : String
  effect : String
  start : Quantity R
  duration : Option (Quantity R)
  extras : Members R

inductive Entry (R : Type) where
  | track (t : Track R)
  | effect (e : EffectUse R)

structure Transition (R : Type) where
  effect : String
  duration : Option (Quantity R)
  extras : Members R

structure GroupTransition (R : Type) where
  entry : Option (Transition R)
  leave : Option (Transition R)
  extras : Members R

variable {R : Type} [Scalar R]

namespace Keyframe

def fields : Fields R (Keyframe R) (Keyframe R) :=
  mk <$> Fields.required "start" Codec.quantity start
    <*> Fields.required "value" Codec.quantity value
    <*> Fields.optional "easing" Codec.raw easing
    <*> Fields.rest extras

def codec : Codec R (Keyframe R) := fields.record

/-- The keyframe at a frame instead of its declared time. -/
def startingAt (k : Keyframe R) (frame : Int) : Keyframe R :=
  { k with start := .number (.int frame) }

end Keyframe

namespace Track

def fields : Fields R (Track R) (Track R) :=
  mk <$> Fields.required "target" Codec.text target
    <*> Fields.required "property" Codec.text property
    <*> Fields.required "keyframes" (Codec.list Keyframe.codec) keyframes
    <*> Fields.rest extras

def codec : Codec R (Track R) := fields.record

end Track

namespace EffectUse

def fields : Fields R (EffectUse R) (EffectUse R) :=
  mk <$> Fields.required "target" Codec.text target
    <*> Fields.required "effect" Codec.text effect
    <*> Fields.defaulted "start" Codec.quantity (.number (.int 0)) start
    <*> Fields.optional "duration" Codec.quantity duration
    <*> Fields.rest extras

def codec : Codec R (EffectUse R) := fields.record

end EffectUse

namespace Entry

def target : Entry R → String
  | track t => t.target
  | effect e => e.target

def given (names : List String) (ms : Members R) : Nat :=
  (names.filter fun n => Members.has n ms).length

/-- How many declared fields a value gives when it is read as a keyframe. -/
def keyframeWeight : Json R → Nat
  | .obj ms => given ["start", "value", "easing"] ms
  | _ => 0

/-- How many declared fields a value gives when it is read as a track, those of its keyframes
included. -/
def trackWeight (ms : Members R) : Nat :=
  let inner :=
    match Members.get? "keyframes" ms with
    | some (.arr items) => items.foldr (fun j n => keyframeWeight j + n) 0
    | _ => 0
  given ["target", "property", "keyframes"] ms + inner

/-- How many declared fields a value gives when it is read as the use of an effect. -/
def effectWeight (ms : Members R) : Nat := given ["target", "effect", "start", "duration"] ms

/-- Reads an animation, which takes up a level. A value that could be either is what it gives more
declared fields for, in doubt a track. -/
def read (room : Nat) (j : Json R) : Checked (Entry R) :=
  match (Track.codec.within room).read j, (EffectUse.codec.within room).read j with
  | .ok t, .ok e =>
    match j with
    | .obj ms => .ok (if trackWeight ms < effectWeight ms then effect e else track t)
    | _ => .ok (track t)
  | .ok t, .error _ => .ok (track t)
  | .error _, .ok e => .ok (effect e)
  | .error a, .error b =>
    .error (a.map (Issue.under (.key "PropertyAnimation")) ++
      b.map (Issue.under (.key "EffectAnimation")))

def write : Entry R → Json R
  | track t => Track.codec.write t
  | effect e => EffectUse.codec.write e

def codec (room : Nat) : Codec R (Entry R) := ⟨read room, write⟩

end Entry

namespace Transition

def fields : Fields R (Transition R) (Transition R) :=
  mk <$> Fields.required "effect" Codec.text effect
    <*> Fields.optional "duration" Codec.quantity duration
    <*> Fields.rest extras

def codec : Codec R (Transition R) := fields.record

end Transition

namespace GroupTransition

def fields (room : Nat) : Fields R (GroupTransition R) (GroupTransition R) :=
  mk <$> Fields.optional ⟨"in", "in_"⟩ (Transition.codec.within room) entry
    <*> Fields.optional "out" (Transition.codec.within room) leave
    <*> Fields.rest extras

/-- The transitions of a group, inside which there are so many levels. -/
def codec (room : Nat) : Codec R (GroupTransition R) := (fields room).record

end GroupTransition

end Storyboard
