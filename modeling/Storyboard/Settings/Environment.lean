import Storyboard.Schema.Basic
import Storyboard.Settings
import Storyboard.Settings.Assignments

namespace Storyboard.Settings

variable {R : Type} [Scalar R]

/-- Numbers that are scalars. -/
def scalarNumber : Codec R (Number R) where
  read j := (Codec.scalar.read j).map .real
  write := Json.num

def fields : Fields R (Settings R) (Settings R) :=
  mk <$> Fields.optional "effects_dir" Codec.text effectsFolder
    <*> Fields.defaulted "default_font" Codec.text (standard (R := R)).font font
    <*> Fields.defaulted "default_text_size" scalarNumber (standard (R := R)).textSize textSize
    <*> Fields.defaulted "text_line_height" scalarNumber (standard (R := R)).lineHeight lineHeight
    <*> Fields.defaulted "bezier_max_iterations" (Codec.wholeFrom 1)
      (standard (R := R)).bezierSteps bezierSteps
    <*> Fields.defaulted "bezier_epsilon" scalarNumber (standard (R := R)).bezierError bezierError
    <*> Fields.defaulted "log_level" Codec.text (standard (R := R)).logLevel logLevel

def codec : Codec R (Settings R) := fields.record

/-- What the names of settings begin with, in lower case. -/
def lead : String := "framekit_"

/-- The letter in lower case. The only letter beyond ASCII whose lower case is in ASCII is the sign
for kelvins. -/
def lowerLetter (c : Char) : Char := if c == '\u212a' then 'k' else c.toLower

/-- A variable as the member that it sets, if it is one of the settings. -/
def member? (v : String × Option String) : Option (String × Option String) :=
  let name := v.1.toList.map lowerLetter
  if lead.toList.isPrefixOf name then some (String.ofList (name.drop lead.length), v.2) else none

/-- The variables as members. The last of several that set the same one counts, and none is set by
one without a value. -/
def members (assigned : Assignments.Values) : Members R :=
  let values := (assigned.filterMap member?).foldl (fun vs v => Assignments.put v.1 v.2 vs) []
  values.filterMap fun v => v.2.map fun text => (v.1, .str text)

/-- The settings of an environment and a file of assignments. -/
def ofEnvironment (environment : List (String × String)) (file : String) : Checked (Settings R) :=
  let ofFile := members (Assignments.parse environment file)
  let ofVariables := members (environment.map fun v => (v.1, some v.2))
  codec.read (.obj (Members.merge ofFile ofVariables))

end Storyboard.Settings
