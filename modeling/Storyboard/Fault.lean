import Storyboard.Issue

namespace Storyboard

/-- An operation on values that has no result. -/
inductive NumericFault where
  /-- An operand that is not a number. -/
  | operand
  /-- A text that is no number, or a number that has no whole part. -/
  | value
  /-- A result out of range. -/
  | overflow
  | zeroDivision
  deriving DecidableEq, Repr

/-- Why a time value gives no frame. The texts are the value as it is shown. -/
inductive TimeFault where
  | unreadable (shown : String)
  | malformed (text : String)
  | negative (shown : String)
  deriving DecidableEq, Repr

inductive EasingFault where
  | unknown (text : String)
  | malformed (text : String)
  | notNumbers
  | outOfRange (x1 x2 : String)
  | notFourPoints
  | pointsNotNumbers
  | notAnEasing (kind : String)
  deriving DecidableEq, Repr

inductive ValueFault where
  | quotedNumber (text : String)
  | notAPercentage (text : String)
  | notAValue (kind : String)
  deriving DecidableEq, Repr

inductive ObjectProblem where
  | requires (id kind property : String)
  | negative (id property shown : String)
  | opacity (id shown : String)
  | speed (id shown : String)
  | transitionWithoutId
  | outTransitionWithoutDuration (id : String)
  | componentWithoutId
  | duplicateId (id scope : String)
  deriving DecidableEq, Repr

/-- Why a file cannot be read or written. -/
inductive FileFault where
  | missing (path : String)
  | folder (path : String)
  | belowFile (path : String)
  /-- A file where a folder would have to be made. -/
  | fileForFolder (path : String)
  /-- A path with a null character, which no path can have. -/
  | nullInPath (path : String)
  /-- A path with half of a character that stands for no byte. -/
  | halfInPath (path : String)
  | nameTooLong (path : String)
  | notText (path : String)
  | notJson (path : String)
  | nestedTooDeep (path : String)
  | numberTooLong (path : String) (digits : Nat)
  | notAnObject (path kind : String)
  deriving DecidableEq, Repr

/-- Why a definition is refused although its file exists. -/
inductive DefinitionFault where
  | unreadable (cause : FileFault)
  | issues (issues : List Issue)
  deriving DecidableEq, Repr

/-- Why the library refuses an input. -/
inductive Fault where
  | numeric (cause : NumericFault)
  | notAMapping
  | notAFontName
  /-- The name of a font with half of a character. -/
  | halfInFontName
  /-- A text that is too large for any font. -/
  | textTooLarge
  | time (cause : TimeFault)
  | easing (context : String) (cause : EasingFault)
  | effectValue (context : String) (cause : ValueFault)
  | objects (problems : List ObjectProblem)
  | duplicatePath (path : String)
  | unknownTarget (target property : String)
  | foreignProperty (property target kind : String) (allowed : List String)
  | targetNotFound (target scope : String)
  | targetAmbiguous (target scope : String) (ids : List String)
  | componentWithoutId
  | referenceWithoutSource (kind id : String)
  | invalidDefinition (kind path : String) (issues : List Issue)
  | circularReference (files : List String)
  | definitionNotFound (path : String)
  | definitionUnreadable (path : String) (cause : FileFault)
  | effectUnreadable (name path : String) (cause : DefinitionFault)
  | effectNotFound (name : String) (available : List String)
  | read (cause : FileFault)
  | document (issues : List Issue)
  | drawOutsideFrame
  | noOpenFrame
  deriving DecidableEq, Repr

def quote (s : String) : String := "'" ++ s ++ "'"

def doubleQuote (s : String) : String := "\"" ++ s ++ "\""

namespace TimeFault

def message : TimeFault → String
  | unreadable shown => "Invalid time format: " ++ shown
  | malformed text =>
    "Invalid time format: " ++ quote text ++
      ". Expected a frame number or a value ending in 'ms', 's' or 'm' (e.g. '1.5s')."
  | negative shown => "Time value cannot be negative: " ++ shown

end TimeFault

/-- The names of the easings that need no parameters. -/
def easingNames : List String :=
  ["linear", "ease-in", "ease-out", "ease-in-out", "bounce", "elastic"]

namespace EasingFault

def message : EasingFault → String
  | unknown text =>
    "unknown easing " ++ doubleQuote text ++ ". Valid easings: " ++ ", ".intercalate easingNames ++
      ", or cubic-bezier(...)"
  | malformed text =>
    doubleQuote text ++
      " is not a valid cubic-bezier format. Expected: \"cubic-bezier(x1, y1, x2, y2)\""
  | notNumbers => "cubic-bezier parameters must be numbers"
  | outOfRange x1 x2 =>
    "cubic-bezier x1 and x2 must be between 0 and 1. Got: x1=" ++ x1 ++ ", x2=" ++ x2
  | notFourPoints => "cubic-bezier object must have points array with 4 values"
  | pointsNotNumbers => "cubic-bezier points must be numbers"
  | notAnEasing kind => "easing must be a string or cubic-bezier object, got " ++ kind

end EasingFault

namespace ValueFault

def message : ValueFault → String
  | quotedNumber text =>
    "value " ++ doubleQuote text ++ " is a string. Use a number instead (without quotes)."
  | notAPercentage text =>
    doubleQuote text ++ " is not a valid value. Use a number or percentage string (e.g., \"50%\")."
  | notAValue kind => "value must be a number or percentage string, got " ++ kind ++ "."

end ValueFault

namespace ObjectProblem

def article (name : String) : String :=
  match name.toList with
  | c :: _ => if c ∈ ['a', 'e', 'i', 'o', 'x'] then "an" else "a"
  | [] => "a"

def label (name : String) : String :=
  match name.toList with
  | c :: cs => String.ofList (c.toUpper :: cs)
  | [] => ""

def message : ObjectProblem → String
  | requires id kind property =>
    "Object " ++ quote id ++ " of type " ++ quote kind ++ " must have " ++ article property ++
      " " ++ quote property ++ " property."
  | negative id property shown =>
    "Object " ++ quote id ++ " has invalid " ++ property ++ ": " ++ shown ++ ". " ++
      label property ++ " cannot be negative."
  | opacity id shown =>
    "Object " ++ quote id ++ " has invalid opacity: " ++ shown ++
      ". Opacity must be between 0 and 1."
  | speed id shown =>
    "Group " ++ quote id ++ " has invalid animationSpeed: " ++ shown ++
      ". It must be greater than 0."
  | transitionWithoutId => "Groups with a transition must have an id."
  | outTransitionWithoutDuration id =>
    "Group " ++ quote id ++ " has an out transition but no duration."
  | componentWithoutId => "Component objects must have an id for namespacing."
  | duplicateId id scope =>
    "Duplicate object id " ++ quote id ++ (if scope == "" then "" else " in " ++ quote scope) ++ "."

end ObjectProblem

namespace FileFault

/-- The wording of a fault. Where a text is not JSON or not text at all there is none: which
character is to blame depends on the reader. -/
def message : FileFault → Option String
  | notAnObject path kind => some ("Expected a JSON object in " ++ path ++ ", got " ++ kind)
  | numberTooLong _ digits =>
    some ("Exceeds the limit (4300 digits) for integer string conversion: value has " ++
      toString digits ++ " digits; use sys.set_int_max_str_digits() to increase the limit")
  | _ => none

/-- Whether the content of the file is to blame, in a way that another fault may name as its
cause. -/
def isOfContent : FileFault → Bool
  | notText _ | notJson _ | numberTooLong .. | notAnObject .. => true
  | _ => false

/-- A lead, and the cause after a colon if it has a wording. -/
def after (lead : String) (cause : FileFault) : String :=
  match cause.message with
  | some text => lead ++ ": " ++ text
  | none => lead

end FileFault

namespace DefinitionFault

/-- A lead, and the cause after a colon if it has a wording. -/
def after (lead : String) : DefinitionFault → String
  | unreadable cause => cause.after lead
  | issues _ => lead

end DefinitionFault

def capitalized (word : String) : String := ObjectProblem.label word

namespace Fault

/-- The wording of a fault, for those that have one. Schema issues are listed, not worded. -/
def message : Fault → Option String
  | numeric _ => none
  | notAMapping => none
  | notAFontName => none
  | halfInFontName => none
  | textTooLarge => none
  | time cause => some cause.message
  | easing context cause => some ("Invalid easing in " ++ context ++ ": " ++ cause.message)
  | effectValue context cause => some ("Invalid value in " ++ context ++ ": " ++ cause.message)
  | objects problems => some ("; ".intercalate (problems.map ObjectProblem.message))
  | duplicatePath path => some ("Duplicate object path " ++ quote path ++ ".")
  | unknownTarget target property =>
    some ("Animation target " ++ quote target ++ " not found. Cannot animate property " ++
      quote property ++ ".")
  | foreignProperty property target kind allowed =>
    some ("Property " ++ quote property ++ " is not valid for object " ++ quote target ++
      " of type " ++ quote kind ++ ". Valid properties: " ++ ", ".intercalate allowed)
  | targetNotFound target scope =>
    some ("Animation target " ++ quote target ++ " not found" ++ inScope scope ++ ".")
  | targetAmbiguous target scope ids =>
    some ("Animation target " ++ quote target ++ inScope scope ++ " is ambiguous: " ++
      ", ".intercalate ids)
  | componentWithoutId => some "Component objects must have an id for namespacing"
  | referenceWithoutSource kind id =>
    some (capitalized kind ++ " " ++ quote id ++ " must have a 'source' property.")
  | invalidDefinition kind path _ => some ("Invalid " ++ kind ++ " definition " ++ path)
  | circularReference files =>
    some ("Circular reference detected: " ++ " -> ".intercalate files)
  | definitionNotFound path => some ("Definition file not found: " ++ path)
  | definitionUnreadable path cause => some (cause.after ("Invalid definition file " ++ path))
  | effectUnreadable name path cause =>
    some (cause.after ("Invalid effect definition " ++ quote name ++ " in " ++ path))
  | effectNotFound name available =>
    some ("Effect " ++ quote name ++ " not found in effects library. Available effects: " ++
      listed available)
  | read (.numberTooLong ..) => none
  | read cause => cause.message
  | document _ => none
  | drawOutsideFrame => some "draw() called outside of a frame"
  | noOpenFrame => none
where
  /-- Where a target was looked for, unless that is the whole document. -/
  inScope (scope : String) : String := if scope == "" then "" else " in group " ++ quote scope
  /-- Names after each other, or a word for none where that is no text. -/
  listed (names : List String) : String :=
    let joined := ", ".intercalate names
    if joined == "" then "none" else joined

def issues : Fault → List Issue
  | invalidDefinition _ _ is => is
  | effectUnreadable _ _ (.issues is) => is
  | document is => is
  | _ => []

end Fault

/-- A computation that may be refused. -/
abbrev Outcome (α : Type) := Except Fault α

end Storyboard
