import Storyboard.Animation
import Storyboard.Easing.Curve
import Storyboard.Order

namespace Storyboard

variable {R : Type} [Scalar R]

namespace Quantity

/-- The number, refused if it is a text. -/
def toNumber : Quantity R → Outcome (Number R)
  | number n => .ok n
  | text _ => numericFault .operand

/-- Whether a number is strictly below a start. -/
def isAbove (start : Quantity R) (frame : Number R) : Outcome Bool :=
  start.toNumber.map frame.lt

def isBelow (start : Quantity R) (frame : Number R) : Outcome Bool :=
  start.toNumber.map fun n => n.lt frame

def isAt (start : Quantity R) (frame : Number R) : Bool :=
  match start with
  | number n => n.eq frame
  | text _ => false

end Quantity

namespace Keyframe

/-- Whether the starts of two keyframes are numbers of which the first is strictly below. -/
def startsBefore (a b : Keyframe R) : Bool :=
  match a.start, b.start with
  | .number m, .number n => m.lt n
  | .text s, .text t => Text.before s t
  | _, _ => false

/-- Whether the start can be compared with others of its kind. -/
def isOrdered (k : Keyframe R) : Bool :=
  match k.start with
  | .number n => n.isOrdered
  | .text _ => true

def startsAtNumber (k : Keyframe R) : Bool :=
  match k.start with
  | .number _ => true
  | .text _ => false

end Keyframe

namespace Track

/-- Keyframes in ascending order of their starts, which are all numbers or all texts. -/
def sortKeyframes (ks : List (Keyframe R)) : Outcome (List (Keyframe R)) :=
  if ks.all Keyframe.startsAtNumber || ks.all fun k => !k.startsAtNumber then
    .ok (Order.arrange Keyframe.isOrdered Keyframe.startsBefore ks)
  else numericFault .operand

/-- Halves an interval of places until it is empty: goes on behind the middle where `behind` holds
of it, and before it otherwise. -/
def bisect (behind : Keyframe R → Outcome Bool) (ks : List (Keyframe R)) :
    Nat → Nat → Nat → Outcome Nat
  | 0, low, _ => .ok low
  | fuel + 1, low, high =>
    if low < high then
      let middle := (low + high) / 2
      match ks[middle]? with
      | none => .ok low
      | some k => do
        if ← behind k then bisect behind ks fuel (middle + 1) high
        else bisect behind ks fuel low middle
    else .ok low

/-- The number of keyframes that start at or before a frame, if they are in order. -/
def countUpTo (ks : List (Keyframe R)) (frame : Number R) : Outcome Nat :=
  bisect (fun k => (k.start.isAbove frame).map (!·)) ks (ks.length + 1) 0 ks.length

/-- The number of keyframes that start before a frame, if they are in order. -/
def countBefore (ks : List (Keyframe R)) (frame : Number R) : Outcome Nat :=
  bisect (fun k => k.start.isBelow frame) ks (ks.length + 1) 0 ks.length

variable [Trig R]

/-- The value at a frame on the way from one number to another. -/
def between (settings : Settings R) (a b : Keyframe R) (here there : Number R) (frame : Number R) :
    Outcome (Number R) := do
  let start ← a.start.toNumber
  let done ← frame.sub start
  let stop ← b.start.toNumber
  let whole ← stop.sub start
  let progress ← done.div whole
  let easing ← Easing.ofOption b.easing
  let eased ← easing.apply settings progress
  let distance ← there.sub here
  let gained ← distance.mul eased
  here.add gained

/-- The value of keyframes at a frame, none if there are no keyframes. -/
def sample (settings : Settings R) (ks : List (Keyframe R)) (frame : Number R) :
    Outcome (Option (Quantity R)) :=
  match ks with
  | [] => .ok none
  | first :: _ => do
    let after ← countUpTo ks frame
    if after == 0 then return some first.value
    else
      let previous := ks[after - 1]?.getD first
      if previous.start.isAt frame then return some previous.value
      else
        match ks[← countBefore ks frame]? with
        | none => return some previous.value
        | some next =>
          match previous.value, next.value with
          | .number a, .number b => do
            let value ← between settings previous next a b frame
            return some (.number value)
          | _, _ => return some previous.value

end Track

/-- The tracks of a timeline by target and property, merged and in order. -/
structure Sampler (R : Type) where
  tracks : List (String × List (String × List (Keyframe R)))

namespace Sampler

/-- Puts the keyframes of a track behind those of the same target and property. -/
def addTrack (tracks : List (String × List (String × List (Keyframe R)))) (t : Track R) :
    List (String × List (String × List (Keyframe R))) :=
  let own := (Members.get? t.target tracks).getD []
  let keyframes := (Members.get? t.property own).getD []
  Members.insert t.target (Members.insert t.property (keyframes ++ t.keyframes) own) tracks

/-- The keyframes of every target and property, merged in the order of the tracks. -/
def merged (tracks : List (Track R)) : List (String × List (String × List (Keyframe R))) :=
  tracks.foldl addTrack []

/-- The tracks with all keyframes in order. -/
def ofTracks (tracks : List (Track R)) : Outcome (Sampler R) := do
  let sorted ← (merged tracks).mapM fun t => do
    let own ← t.2.mapM fun p => do
      let keyframes ← Track.sortKeyframes p.2
      return (p.1, keyframes)
    return (t.1, own)
  return ⟨sorted⟩

/-- The targets in the order in which they first occur. -/
def targets (s : Sampler R) : List String := s.tracks.map (·.1)

def tracksFor (s : Sampler R) (target : String) : List (String × List (Keyframe R)) :=
  (Members.get? target s.tracks).getD []

variable [Trig R]

/-- The value of a property of a target at a frame, none if it is not animated. -/
def sampleProperty (s : Sampler R) (settings : Settings R) (target property : String)
    (frame : Number R) : Outcome (Option (Quantity R)) :=
  Track.sample settings ((Members.get? property (s.tracksFor target)).getD []) frame

/-- The values of the animated properties of a target at a frame. -/
def sampleTarget (s : Sampler R) (settings : Settings R) (target : String) (frame : Number R) :
    Outcome (List (String × Quantity R)) := do
  let samples ← (s.tracksFor target).mapM fun p => do
    let value ← Track.sample settings p.2 frame
    return value.map (p.1, ·)
  return samples.filterMap fun x => x

end Sampler

end Storyboard
