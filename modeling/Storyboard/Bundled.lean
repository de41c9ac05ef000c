import Storyboard.Definitions

namespace Storyboard.Bundled

variable {R : Type} [Scalar R]

def decimal (coefficient : Nat) (exponent : Int) : Json R :=
  .real (Scalar.const coefficient exponent)

/-- The token that stands for a property of the target. -/
def token (property : String) : Json R := .str ("\x7b" ++ property ++ "\x7d")

/-- A keyframe at so many tenths of the duration, with an easing if one is given. -/
def key (tenths : Nat) (value : Json R) (easing : Option (Json R)) : Json R :=
  .obj ([("time", decimal tenths (-1)), ("value", value)] ++
    match easing with
    | some e => [("easing", e)]
    | none => [])

/-- A definition with its duration in tenths of a second. -/
def effect (description : String) (tenths : Nat) (properties : Members R) : Json R :=
  .obj [("description", .str description), ("duration", decimal tenths (-1)),
    ("properties", .obj properties)]

def slideEasing : Json R := .str "cubic-bezier(0.22, 1, 0.36, 1)"

def overshoot : Json R :=
  .obj [("type", .str "cubic-bezier"),
    ("points", .arr [decimal 34 (-2), decimal 156 (-2), decimal 64 (-2), .int 1])]

def effects : List (String × Json R) := [
  ("fadeIn", effect "Fade from transparent to the object's opacity" 5 [
    ("opacity", .arr [
      key 0 (.int 0) none,
      key 10 (token "opacity") (some (.str "ease-out"))])]),
  ("fadeOut", effect "Fade from the object's opacity to transparent" 5 [
    ("opacity", .arr [
      key 0 (token "opacity") none,
      key 10 (.int 0) (some (.str "ease-in"))])]),
  ("pop", effect "Scale up from nothing with a slight overshoot" 4 [
    ("scale", .arr [
      key 0 (.int 0) none,
      key 7 (decimal 115 (-2)) (some (.str "ease-out")),
      key 10 (token "scale") (some (.str "ease-in-out"))]),
    ("opacity", .arr [
      key 0 (.int 0) none,
      key 5 (token "opacity") (some (.str "linear"))])]),
  ("slideInLeft", effect "Slide in from beyond the left edge to the object's position" 6 [
    ("x", .arr [
      key 0 (.int (-960)) none,
      key 10 (token "x") (some slideEasing)]),
    ("opacity", .arr [
      key 0 (.int 0) none,
      key 4 (token "opacity") none])]),
  ("slideInRight", effect "Slide in from beyond the right edge to the object's position" 6 [
    ("x", .arr [
      key 0 (.int 2880) none,
      key 10 (token "x") (some slideEasing)]),
    ("opacity", .arr [
      key 0 (.int 0) none,
      key 4 (token "opacity") none])]),
  ("slideUp", effect "Rise from below the frame to the object's position" 8 [
    ("y", .arr [
      key 0 (.int 1200) none,
      key 10 (token "y") (some overshoot)])]),
  ("wipe", effect "Reveal left to right by widening the clip region" 10 [
    ("clip.width", .arr [
      key 0 (.int 0) none,
      key 10 (.str "100%") none])])]

def folder : Place := ⟨["usr", "share", "storyboard", "effects"]⟩

/-- The disk with the bundled effects on it, written in the arithmetic `R`. -/
def install (R : Type) [Scalar R] (d : Disk) : Disk :=
  (effects (R := R)).foldl (fun d e => d.writeJson (folder.child (e.1 ++ ".json")) e.2) d

/-- The folders in which effects are looked for: a configured one, and then the bundled one. -/
def folders (base : Place) (configured : Option String) : List Route :=
  let configuredFolder := (configured.filter (· != "")).map (Route.ofPath (Route.ofPlace base))
  configuredFolder.toList ++ [Route.ofPlace folder]

end Storyboard.Bundled
