import Storyboard.Object.Schema

namespace Storyboard

/-- The frame and its rate. -/
structure Project (R : Type) where
  width : Int
  height : Int
  fps : R
  frames : Int
  extras : Members R

structure Document (R : Type) where
  project : Project R
  speed : Option R
  objects : List (Object R)
  animations : List (Entry R)
  extras : Members R

inductive ParameterKind where
  | string
  | number
  | boolean
  deriving DecidableEq, Repr

namespace ParameterKind

def name : ParameterKind → String
  | string => "string"
  | number => "number"
  | boolean => "boolean"

def ofName? (name : String) : Option ParameterKind :=
  [string, number, boolean].find? fun k => k.name == name

theorem ofName?_name (k : ParameterKind) : ofName? k.name = some k := by cases k <;> decide

end ParameterKind

structure Parameter (R : Type) where
  kind : Option ParameterKind
  default : Option (Json R)
  extras : Members R

/-- A component: objects and animations with parameters. -/
structure Component (R : Type) where
  parameters : List (String × Parameter R)
  objects : List (Object R)
  animations : List (Entry R)
  width : Option (Number R)
  height : Option (Number R)
  extras : Members R

/-- A scene: objects and animations with a duration. -/
structure Scene (R : Type) where
  duration : Option (Quantity R)
  objects : List (Object R)
  animations : List (Entry R)
  extras : Members R

/-- A compiled animation: ids are full paths, and there are only tracks in absolute frames. -/
structure Timeline (R : Type) where
  project : Project R
  objects : List (Object R)
  tracks : List (Track R)
  extras : Members R

variable {R : Type} [Scalar R]

namespace Project

def fields : Fields R (Project R) (Project R) :=
  mk <$> Fields.required "width" Codec.whole width
    <*> Fields.required "height" Codec.whole height
    <*> Fields.required "fps" Codec.positive fps
    <*> Fields.required "frames" (Codec.wholeFrom 0) frames
    <*> Fields.rest extras

def codec : Codec R (Project R) := fields.record

end Project

def objectsField {ρ : Type} (get : ρ → List (Object R)) : Fields R ρ (List (Object R)) :=
  Fields.defaulted "objects" (Codec.list Object.codec) [] get

def animationsField {ρ : Type} (get : ρ → List (Entry R)) : Fields R ρ (List (Entry R)) :=
  Fields.defaulted "animations" (Codec.list (Entry.codec Object.maxLevels)) [] get

namespace Document

def fields : Fields R (Document R) (Document R) :=
  mk <$> Fields.required "project" Project.codec project
    <*> Fields.optional ⟨"animationSpeed", "animation_speed"⟩ Codec.scalar speed
    <*> objectsField objects
    <*> animationsField animations
    <*> Fields.rest extras

def codec : Codec R (Document R) := fields.record

end Document

namespace Parameter

def fields : Fields R (Parameter R) (Parameter R) :=
  mk <$> Fields.optional "type" (Codec.choice ParameterKind.ofName? ParameterKind.name) kind
    <*> Fields.optional "default" Codec.raw default
    <*> Fields.rest extras

def codec : Codec R (Parameter R) := fields.record

end Parameter

namespace Component

def fields : Fields R (Component R) (Component R) :=
  mk <$> Fields.defaulted "parameters" (Codec.map Parameter.codec) [] parameters
    <*> objectsField objects
    <*> animationsField animations
    <*> Fields.optional "width" Codec.number width
    <*> Fields.optional "height" Codec.number height
    <*> Fields.rest extras

def codec : Codec R (Component R) := fields.record

end Component

namespace Scene

def fields : Fields R (Scene R) (Scene R) :=
  mk <$> Fields.optional "duration" Codec.quantity duration
    <*> objectsField objects
    <*> animationsField animations
    <*> Fields.rest extras

def codec : Codec R (Scene R) := fields.record

end Scene

namespace Timeline

def fields : Fields R (Timeline R) (Timeline R) :=
  mk <$> Fields.required "project" Project.codec project
    <*> objectsField objects
    <*> Fields.defaulted "animations" (Codec.list Track.codec) [] tracks
    <*> Fields.rest extras

def codec : Codec R (Timeline R) := fields.record

/-- The targets of the tracks in the order in which they first occur, each with the number of its
tracks. -/
def targets (t : Timeline R) : List (String × Nat) :=
  t.tracks.foldl
    (fun counts track =>
      Members.insert track.target ((Members.get? track.target counts).getD 0 + 1) counts) []

end Timeline

/-- Reads a value, refusing it with the issues that are found. -/
def readDocument {α : Type} (c : Codec R α) (j : Json R) : Outcome α :=
  (c.read j).mapError Fault.document

end Storyboard
