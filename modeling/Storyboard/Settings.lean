import Storyboard.Number

namespace Storyboard

/-- The settings that the library reads. -/
structure Settings (R : Type) where
  /-- A folder that is searched for effects before the bundled ones. -/
  effectsFolder : Option String
  font : String
  textSize : Number R
  lineHeight : Number R
  /-- How many steps the solver for a curve may take, and the error at which it stops. -/
  bezierSteps : Int
  bezierError : Number R
  logLevel : String

namespace Settings

variable {R : Type} [Scalar R]

/-- The settings where nothing is configured. -/
def standard : Settings R where
  effectsFolder := none
  font := "sans-serif"
  textSize := .real (Scalar.const 160 (-1))
  lineHeight := .real (Scalar.const 12 (-1))
  bezierSteps := 10
  bezierError := .real (Scalar.const 1 (-6))
  logLevel := "INFO"

end Settings

end Storyboard
