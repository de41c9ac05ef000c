import Storyboard.ClipLengths
import Storyboard.Expansion
import Storyboard.Flattening
import Storyboard.Object.Check
import Storyboard.Track.Check

namespace Storyboard

/-- The stores of definitions that compilation reads from. -/
structure Catalog (R : Type) where
  definitions : DefinitionStore R
  effects : EffectLibrary R

/-- What compilation depends on beside the document and the stores. -/
structure Studio (R : Type) where
  disk : Disk
  settings : Settings R
  measurer : Measurer R

variable {R : Type} [Scalar R]

namespace Catalog

/-- A computation with the definitions as one with the whole catalog. -/
def withDefinitions {α : Type} (r : Run (DefinitionStore R) α) : Run (Catalog R) α := do
  let c ← get
  let (answer, definitions) := r.exec c.definitions
  set { c with definitions := definitions }
  Run.lift answer

/-- A computation with the effects as one with the whole catalog. -/
def withEffects {α : Type} (r : Run (EffectLibrary R) α) : Run (Catalog R) α := do
  let c ← get
  let (answer, effects) := r.exec c.effects
  set { c with effects := effects }
  Run.lift answer

end Catalog

namespace Studio

/-- Compiles a document whose sources start from a folder. -/
def compile (s : Studio R) (folder : Place) (doc : Document R) : Run (Catalog R) (Timeline R) := do
  let fps : Number R := .real doc.project.fps
  Run.lift (Object.checkTree doc.objects)
  let expanded ← Catalog.withDefinitions <|
    Expansion.expandObjects s.disk fps ⟨folder, 0, []⟩ doc.objects
  Run.lift (Object.checkTree expanded)
  let (objects, tracks) ← Catalog.withEffects <|
    Flattening.flatten s.disk fps expanded doc.animations (doc.speed.map .real)
  let (objects, tracks) ← Run.lift (resolveClipLengths s.settings s.measurer objects tracks)
  Run.lift (Track.checkAll objects tracks)
  return ⟨doc.project, objects, tracks, []⟩

def compileJson (s : Studio R) (folder : Place) (j : Json R) : Run (Catalog R) (Timeline R) := do
  let doc ← Run.lift (readDocument Document.codec j)
  s.compile folder doc

/-- Compiles the document in a file, whose path starts from a folder. -/
def compileFile (s : Studio R) (folder : Place) (path : String) :
    Run (Catalog R) (Timeline R) := do
  let route := Route.ofPath (Route.ofPlace folder) path
  match s.disk.readMembers (Route.shown path) route with
  | .error cause => throw (.read cause)
  | .ok members => s.compileJson (Place.ofRoute route).folder (.obj members)

end Studio

end Storyboard
