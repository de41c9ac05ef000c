import Storyboard.Address
import Storyboard.Measure
import Storyboard.Percentage

namespace Storyboard

variable {R : Type} [Scalar R]

/-- The side of a size that a clip property is a part of. -/
def Size.along (s : Size R) (property : String) : Option R :=
  match property with
  | "x" | "width" => some s.width
  | "y" | "height" => some s.height
  | _ => none

/-- The clip property that an animated property is, if it is one. -/
def clipProperty? (property : String) : Option String :=
  let lead := "clip.".toList
  if lead.isPrefixOf property.toList then
    let name := String.ofList (property.toList.drop lead.length)
    if ["x", "y", "width", "height"].contains name then some name else none
  else none

namespace Clip

/-- An optional number or text with a percentage replaced by its part of a length. -/
def resolveSide (q : Option (Quantity R)) (length : R) : Outcome (Option (Quantity R)) :=
  match q with
  | none => .ok none
  | some q => (Percentage.resolve q (.real length)).map some

/-- A clip with its percentages replaced by lengths. -/
def resolve (c : Clip R) (s : Size R) : Outcome (Clip R) := do
  let x ← resolveSide c.x s.width
  let width ← resolveSide c.width s.width
  let y ← resolveSide c.y s.height
  let height ← resolveSide c.height s.height
  return { c with x := x, y := y, width := width, height := height }

end Clip

namespace Object

/-- An object with the percentages of its own clip replaced. -/
def resolveClip (settings : Settings R) (measurer : Measurer R) (o : Object R) :
    Outcome (Object R) := do
  match o.base.clip with
  | none => return o
  | some c =>
    let size ← o.measure settings measurer
    let c ← c.resolve size
    return o.withClip (some c)

mutual

/-- An object with the percentages of all clips in it replaced, those of children first. -/
def resolveClips (settings : Settings R) (measurer : Measurer R) : Object R → Outcome (Object R)
  | group b cs info e => do
    let children ← resolveAllClips settings measurer cs
    resolveClip settings measurer (group b children info e)
  | shape b s e => resolveClip settings measurer (shape b s e)
  | reference b r e => resolveClip settings measurer (reference b r e)

def resolveAllClips (settings : Settings R) (measurer : Measurer R) :
    List (Object R) → Outcome (List (Object R))
  | [] => .ok []
  | o :: rest => do
    let first ← resolveClips settings measurer o
    let others ← resolveAllClips settings measurer rest
    return first :: others

end

end Object

namespace Track

/-- The declared size of a target, a square if it is not in the tree. -/
def targetSize (settings : Settings R) (measurer : Measurer R) (objects : List (Object R))
    (target : String) : Outcome (Size R) :=
  match Address.find objects target "" with
  | some o => o.measure settings measurer
  | none => .ok ⟨defaultSide, defaultSide⟩

/-- A track of a clip property with its percentages replaced by lengths. -/
def resolveClip (settings : Settings R) (measurer : Measurer R) (objects : List (Object R))
    (t : Track R) : Outcome (Track R) := do
  match clipProperty? t.property with
  | none => return t
  | some name =>
    if t.keyframes.any fun k => Percentage.isPercent k.value then
      let size ← targetSize settings measurer objects t.target
      let length := (size.along name).getD defaultSide
      let keyframes ← t.keyframes.mapM fun k => do
        let value ← Percentage.resolve k.value (.real length)
        return { k with value := value }
      return { t with keyframes := keyframes }
    else return t

end Track

/-- A tree and tracks with all percentages of clips replaced by lengths. -/
def resolveClipLengths (settings : Settings R) (measurer : Measurer R) (objects : List (Object R))
    (tracks : List (Track R)) : Outcome (List (Object R) × List (Track R)) := do
  let resolved ← Object.resolveAllClips settings measurer objects
  let tracks ← tracks.mapM (Track.resolveClip settings measurer objects)
  return (resolved, tracks)

end Storyboard
