import Storyboard.Composition
import Storyboard.Definitions

namespace Storyboard

/-- What was drawn in each frame, in the order in which frames were first opened, and the frame that
is open. -/
structure Recording (R : Type) where
  frames : List (Number R × List (DrawItem R))
  current : Option (Number R)

variable {R : Type} [Scalar R]

namespace Recording

def empty : Recording R := ⟨[], none⟩

def items? (frame : Number R) : List (Number R × List (DrawItem R)) → Option (List (DrawItem R))
  | [] => none
  | (f, items) :: rest => if f.eq frame then some items else items? frame rest

/-- The frames with the items of one of them changed. A frame that was not there is added. -/
def update (frame : Number R) (change : List (DrawItem R) → List (DrawItem R)) :
    List (Number R × List (DrawItem R)) → List (Number R × List (DrawItem R))
  | [] => [(frame, change [])]
  | (f, items) :: rest =>
    if f.eq frame then (f, change items) :: rest else (f, items) :: update frame change rest

/-- Opens a frame, without what was drawn in it before. -/
def openFrame (frame : Number R) (r : Recording R) : Recording R :=
  ⟨update frame (fun _ => []) r.frames, some frame⟩

def draw (item : DrawItem R) : Run (Recording R) Unit := do
  let r ← get
  match r.current with
  | none => throw .drawOutsideFrame
  | some frame => set { r with frames := update frame (· ++ [item]) r.frames }

def drawAll : List (DrawItem R) → Run (Recording R) Unit
  | [] => return ()
  | i :: rest => do
    draw i
    drawAll rest

/-- Closes the open frame and answers what was drawn in it. -/
def closeFrame : Run (Recording R) (List (DrawItem R)) := do
  let r ← get
  match r.current.bind fun frame => items? frame r.frames with
  | none => throw .noOpenFrame
  | some items =>
    set { r with current := none }
    return items

end Recording

/-- A timeline with its tracks ready to be sampled. -/
structure Renderer (R : Type) where
  settings : Settings R
  measurer : Measurer R
  timeline : Timeline R
  sampler : Sampler R

namespace Renderer

def ofTimeline (settings : Settings R) (measurer : Measurer R) (t : Timeline R) :
    Outcome (Renderer R) := do
  let sampler ← Sampler.ofTracks t.tracks
  return ⟨settings, measurer, t, sampler⟩

variable [Trig R]

def sampleFrame (r : Renderer R) (frame : Number R) : Outcome (List (DrawItem R)) :=
  Composition.compose r.settings r.measurer r.sampler r.timeline.objects frame

def renderFrame (r : Renderer R) (frame : Number R) : Run (Recording R) (List (DrawItem R)) := do
  modify (Recording.openFrame frame)
  let items ← Run.lift (r.sampleFrame frame)
  Recording.drawAll items
  Recording.closeFrame

def renderAll (r : Renderer R) : List (Number R) → Run (Recording R) (List (List (DrawItem R)))
  | [] => return []
  | frame :: rest => do
    let first ← r.renderFrame frame
    let others ← r.renderAll rest
    return first :: others

def allFrames (r : Renderer R) : List (Number R) :=
  (List.range r.timeline.project.frames.toNat).map fun (n : Nat) => .int n

def distinct (frames : List (Number R)) : List (Number R) :=
  frames.foldl (fun seen f => if seen.any f.eq then seen else seen ++ [f]) []

/-- What is drawn at each of some frames, each frame once. -/
def sampleFrames (r : Renderer R) (frames : List (Number R)) :
    Outcome (List (Number R × List (DrawItem R))) :=
  (distinct frames).mapM fun f => do
    let items ← r.sampleFrame f
    return (f, items)

end Renderer

end Storyboard
