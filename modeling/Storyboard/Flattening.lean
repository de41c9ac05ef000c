import Storyboard.EffectTracks

namespace Storyboard

variable {R : Type} [Scalar R]

/-- The absolute start frame of a group and its speed, that of the groups around it included. -/
structure TimeScope (R : Type) where
  start : Int
  speed : Number R

namespace TimeScope

def root (speed : Option (Number R)) : TimeScope R :=
  ⟨0, speed.getD (.real (Scalar.const 1 0))⟩

def enter (s : TimeScope R) (info : GroupInfo R) (fps : Number R) : Outcome (TimeScope R) := do
  let start ← Time.frameOrZero fps info.start
  let speed ← s.speed.mul (.real (info.speed.getD (Scalar.const 1 0)))
  return ⟨s.start + start, speed⟩

/-- The absolute frame of a frame of the group. -/
def toAbsolute (s : TimeScope R) (frame : Number R) : Outcome Int := do
  let scaled ← frame.div s.speed
  let rounded ← scaled.roundFrame
  return s.start + rounded

end TimeScope

namespace Track

/-- Keyframes with their frames, in ascending order of frames, each put at its frame. -/
def ordered (keyframes : List (Int × Keyframe R)) : List (Keyframe R) :=
  (Order.sort (fun a b => decide (a.1 < b.1)) keyframes).map fun k => k.2.startingAt k.1

/-- The keyframes with their starts mapped, in ascending order. -/
def placed (frame : Quantity R → Outcome Int) (keyframes : List (Keyframe R)) :
    Outcome (List (Keyframe R)) :=
  (keyframes.mapM fun k => (frame k.start).map fun f => (f, k)).map ordered

end Track

namespace Flattening

/-- How frames of a group become absolute. -/
inductive FrameMap (R : Type) where
  | absolute
  | scaled (s : TimeScope R)

def FrameMap.apply : FrameMap R → Int → Outcome Int
  | absolute, frame => .ok frame
  | scaled s, frame => s.toAbsolute (.int frame)

/-- The object that a target means in a scope: the one at that path, or else the only one whose id
ends in it. -/
def resolveTarget (target : String) (objects : List (Object R)) (scope : String) :
    Outcome (Object R) :=
  match Address.find objects target scope with
  | some o => .ok o
  | none =>
    match Address.descendants objects target with
    | [o] => .ok o
    | [] => .error (.targetNotFound target scope)
    | many => .error (.targetAmbiguous target scope (many.filterMap Object.id))

/-- The part of an id behind a prefix, the whole id if it does not begin so. -/
def localId (namespaceText id : String) : String :=
  let lead := namespaceText.toList
  if !lead.isEmpty && lead.isPrefixOf id.toList then String.ofList (id.toList.drop lead.length)
  else id

/-- An animation of a file as it is looked up inside the group that stands for the file. -/
def withoutLead (lead : String) : Entry R → Entry R
  | .effect u => .effect { u with target := localId lead u.target }
  | .track t => .track { t with target := localId lead t.target }

/-- The frame of the start of a keyframe that is already a frame. -/
def frameOf : Quantity R → Outcome Int
  | .number n => n.floor
  | .text _ => numericFault .operand

/-- What flattening keeps from object to object: the library, and the paths in use. -/
structure State (R : Type) where
  library : EffectLibrary R
  paths : List String

/-- A computation with the library as a computation with the whole state. -/
def withLibrary {α : Type} (r : Run (EffectLibrary R) α) : Run (State R) α := do
  let s ← get
  let (answer, library) := r.exec s.library
  set { s with library := library }
  Run.lift answer

/-- The tracks of the use of an effect on a target, their frames mapped. -/
def effectTracks (d : Disk) (fps : Number R) (use : EffectUse R) (target : Object R) (start : Int)
    (frames : FrameMap R) : Run (State R) (List (Track R)) := do
  let tracks ← withLibrary (use.tracks d fps (some target.staticProps) start)
  Run.lift <| tracks.mapM fun t => do
    let keyframes ← Track.placed (fun q => do frames.apply (← frameOf q)) t.keyframes
    return { t with keyframes := keyframes }

/-- The id under which an animation is compiled. -/
def targetId (target : Object R) : String := target.id.getD ""

def emit (d : Disk) (fps : Number R) (objects : List (Object R)) (scope : String)
    (frames : FrameMap R) (entry : Entry R) : Run (State R) (List (Track R)) := do
  let target ← Run.lift (resolveTarget entry.target objects scope)
  match entry with
  | .effect e =>
    let start ← Run.lift (Time.frame fps e.start)
    effectTracks d fps { e with target := targetId target } target start frames
  | .track t =>
    let keyframes ← Run.lift <|
      Track.placed (fun q => do frames.apply (← Time.frame fps q)) t.keyframes
    return [{ t with target := targetId target, keyframes := keyframes }]

def emitAll (d : Disk) (fps : Number R) (objects : List (Object R)) (scope : String)
    (frames : FrameMap R) : List (Entry R) → Run (State R) (List (Track R))
  | [] => return []
  | e :: rest => do
    let first ← emit d fps objects scope frames e
    let others ← emitAll d fps objects scope frames rest
    return first ++ others

def emitTransition (d : Disk) (fps : Number R) (group : Object R) (path : String) (start : Int)
    (t : Transition R) : Run (State R) (List (Track R)) :=
  effectTracks d fps ⟨path, t.effect, .number (.int start), t.duration, []⟩ group start .absolute

/-- The tracks of the transitions of a group that starts at a frame and takes so many. -/
def emitTransitions (d : Disk) (fps : Number R) (group : Object R) (path : String) (start : Int)
    (duration : Option Int) (t : GroupTransition R) : Run (State R) (List (Track R)) := do
  let entry ← match t.entry with
    | some e => emitTransition d fps group path start e
    | none => pure []
  let leave ← match t.leave with
    | some l =>
      match duration with
      | some n => emitTransition d fps group path (start + n) l
      | none => throw (.objects [.outTransitionWithoutDuration path])
    | none => pure []
  return entry ++ leave

/-- The full path of an object, which no other object may have. -/
def claimPath (parent namespaceText : String) (id : Option String) :
    Run (State R) (Option String) := do
  match id with
  | none => return none
  | some raw =>
    let path := Address.join parent (localId namespaceText raw)
    if (← get).paths.contains path then throw (.duplicatePath path)
    else
      modify fun s => { s with paths := path :: s.paths }
      return some path

/-- The path of the objects in a group: that of the group, or without one that of its parent. -/
def innerPath (parent : String) : Option String → String
  | some path => if path == "" then parent else path
  | none => parent

/-- The prefix that the expansion of a group has put in front of the ids in it. -/
def innerNamespace (outer : String) (b : Base R) (info : GroupInfo R) : String :=
  let given : Option String → Bool
    | some s => s != ""
    | none => false
  if given info.expandedFrom && given b.id then b.id.getD "" ++ "." else outer

/-- What a compiled group declares: its window in absolute frames, and no animations. -/
def compiledInfo (info : GroupInfo R) (start : Int) (duration : Option Int) : GroupInfo R :=
  { info with
    start :=
      if info.start.isSome || info.duration.isSome then some (.number (.int start)) else none
    duration := duration.map fun n => .number (.int n)
    animations := []
    resolved := [] }

/-- The frames that a group takes, if it declares a duration. -/
def durationFrames (fps : Number R) : Option (Quantity R) → Outcome (Option Int)
  | none => .ok none
  | some q => (Time.frame fps q).map some

mutual

/-- An object with its full path as its id, and the tracks of what it holds. -/
def qualify (d : Disk) (fps : Number R) (parent namespaceText : String) (scope : TimeScope R) :
    Object R → Run (State R) (Object R × List (Track R))
  | .shape b s e => do
    let path ← claimPath parent namespaceText b.id
    return (.shape { b with id := path } s e, [])
  | .reference b r e => do
    let path ← claimPath parent namespaceText b.id
    return (.reference { b with id := path } r e, [])
  | .group b cs info e => do
    let path ← claimPath parent namespaceText b.id
    let own ← Run.lift (scope.enter info fps)
    let inner := innerPath parent path
    let innerText := innerNamespace namespaceText b info
    let (children, below) ← qualifyAll d fps inner innerText own cs
    let duration ← Run.lift (durationFrames fps info.duration)
    let compiled : Object R :=
      .group { b with id := path } children (compiledInfo info own.start duration) e
    let transitions ← match info.transition, path with
      | some t, some p => emitTransitions d fps compiled p own.start duration t
      | _, _ => pure []
    let animations ← emitAll d fps children inner (.scaled own) info.animations
    let resolved ← emitAll d fps children inner .absolute
      (info.resolved.map (withoutLead innerText))
    return (compiled, below ++ transitions ++ animations ++ resolved)

def qualifyAll (d : Disk) (fps : Number R) (parent namespaceText : String) (scope : TimeScope R) :
    List (Object R) → Run (State R) (List (Object R) × List (Track R))
  | [] => return ([], [])
  | o :: rest => do
    let (first, below) ← qualify d fps parent namespaceText scope o
    let (others, more) ← qualifyAll d fps parent namespaceText scope rest
    return (first :: others, below ++ more)

end

/-- Flattens a tree with the animations of its document, whose tracks come first. -/
def flattenIn (d : Disk) (fps : Number R) (objects : List (Object R)) (entries : List (Entry R))
    (speed : Option (Number R)) : Run (State R) (List (Object R) × List (Track R)) := do
  let scope := TimeScope.root speed
  let (compiled, below) ← qualifyAll d fps "" "" scope objects
  let own ← emitAll d fps compiled "" (.scaled scope) entries
  return (compiled, own ++ below)

/-- Flattens a tree, starting with no path in use. -/
def flatten (d : Disk) (fps : Number R) (objects : List (Object R)) (entries : List (Entry R))
    (speed : Option (Number R)) :
    Run (EffectLibrary R) (List (Object R) × List (Track R)) := do
  let library ← get
  let (answer, s) := (flattenIn d fps objects entries speed).exec ⟨library, []⟩
  set s.library
  Run.lift answer

end Flattening

end Storyboard
