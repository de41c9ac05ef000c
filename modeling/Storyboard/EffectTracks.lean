import Storyboard.Address
import Storyboard.Definitions
import Storyboard.Easing
import Storyboard.Percentage
import Storyboard.Time
import Storyboard.Token

namespace Storyboard.EffectUse

variable {R : Type} [Scalar R]

/-- How many frames an effect takes: as declared where it is used, or else where it is defined. -/
def durationFrames (use : EffectUse R) (effect : Effect R) (fps : Number R) : Outcome Int :=
  match use.duration with
  | some d => Time.frame fps d
  | none => do
    let frames ← (Number.real effect.duration).mul fps
    frames.roundFrame

/-- The frame of a keyframe at a part of the duration. -/
def keyframeFrame (start duration : Int) (time : R) : Outcome Int := do
  let distance ← (Number.real time).mul (.int duration)
  let frame ← (Number.int start).add distance
  frame.roundFrame

/-- A keyframe of an effect on a target with the given properties. -/
def keyframe (context : String) (props : Option (Members R)) (start duration : Int)
    (k : EffectKeyframe R) : Outcome (Keyframe R) := do
  Easing.checkOption context k.easing
  let value ← Percentage.effectValue context (Token.substituteProperty props k.value)
  let frame ← keyframeFrame start duration k.time
  return ⟨.number (.int frame), value, k.easing, []⟩

/-- The keyframes of a property from a place in its list on. -/
def keyframesFrom (source property : String) (props : Option (Members R)) (start duration : Int) :
    Nat → List (EffectKeyframe R) → Outcome (List (Keyframe R))
  | _, [] => .ok []
  | index, k :: rest => do
    let first ← keyframe (keyframeContext source property index) props start duration k
    let others ← keyframesFrom source property props start duration (index + 1) rest
    return first :: others

/-- The tracks of an effect, one for each of its properties. -/
def tracksOf (use : EffectUse R) (effect : Effect R) (fps : Number R) (props : Option (Members R))
    (start : Int) : Outcome (List (Track R)) := do
  let duration ← use.durationFrames effect fps
  effect.properties.mapM fun p => do
    let keyframes ← keyframesFrom ("effect " ++ quote use.effect) p.1 props start duration 0 p.2
    return ⟨use.target, p.1, keyframes, []⟩

/-- The tracks of the use of an effect whose first keyframe is at a given frame. -/
def tracks (d : Disk) (use : EffectUse R) (fps : Number R) (props : Option (Members R))
    (start : Int) : Run (EffectLibrary R) (List (Track R)) := do
  let effect ← EffectLibrary.get d use.effect
  Run.lift (use.tracksOf effect fps props start)

/-- The tracks of the use of an effect in a tree of objects, at its own start. A target that is not
in the tree has no properties. -/
def expand (d : Disk) (use : EffectUse R) (fps : Number R) (objects : List (Object R)) :
    Run (EffectLibrary R) (List (Track R)) := do
  let props := (Address.find objects use.target "").map Object.staticProps
  let start ← Run.lift (Time.frame fps use.start)
  use.tracks d fps props start

end Storyboard.EffectUse
