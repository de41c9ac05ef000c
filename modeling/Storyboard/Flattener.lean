import Storyboard.Flattening

namespace Storyboard

/-- A flattener: the state of flattening, and the tracks that were collected so far. -/
structure Flattener (R : Type) extends Flattening.State R where
  tracks : List (Track R)

namespace Flattener

open Flattening

variable {R : Type} [Scalar R]

/-- A flattener that has not been used. -/
def ofLibrary (library : EffectLibrary R) : Flattener R := ⟨⟨library, []⟩, []⟩

/-- A computation with the state of flattening as one with the flattener. -/
def within {α : Type} (r : Run (State R) α) : Run (Flattener R) α := do
  let f ← get
  let (answer, s) := r.exec f.toState
  set { f with toState := s }
  Run.lift answer

/-- Puts the tracks that are computed behind those collected so far. -/
def collect (r : Run (State R) (List (Track R))) : Run (Flattener R) Unit := do
  let found ← within r
  modify fun f => { f with tracks := f.tracks ++ found }

def collectAll (d : Disk) (fps : Number R) (objects : List (Object R)) (scope : String)
    (frames : FrameMap R) : List (Entry R) → Run (Flattener R) Unit
  | [] => return ()
  | e :: rest => do
    collect (emit d fps objects scope frames e)
    collectAll d fps objects scope frames rest

/-- Collects the tracks with which a group appears. -/
def collectEnter (d : Disk) (fps : Number R) (group : Object R) (path : String) (start : Int) :
    Option (Transition R) → Run (Flattener R) Unit
  | some t => collect (emitTransition d fps group path start t)
  | none => return ()

/-- Collects the tracks with which a group disappears. -/
def collectLeave (d : Disk) (fps : Number R) (group : Object R) (path : String) (start : Int) :
    Option Int → Option (Transition R) → Run (Flattener R) Unit
  | _, none => return ()
  | some n, some t => collect (emitTransition d fps group path (start + n) t)
  | none, some _ => throw (.objects [.outTransitionWithoutDuration path])

/-- Collects the tracks of the transitions that a group declares, if it has a path. -/
def collectTransitions (d : Disk) (fps : Number R) (group : Object R) (start : Int)
    (duration : Option Int) :
    Option (GroupTransition R) → Option String → Run (Flattener R) Unit
  | some t, some path => do
    collectEnter d fps group path start t.entry
    collectLeave d fps group path start duration t.leave
  | _, _ => return ()

mutual

/-- An object with its full path as its id. The tracks of what it holds are collected. -/
def qualify (d : Disk) (fps : Number R) (parent namespaceText : String) (scope : TimeScope R) :
    Object R → Run (Flattener R) (Object R)
  | .shape b s e => do
    let path ← within (claimPath parent namespaceText b.id)
    return .shape { b with id := path } s e
  | .reference b r e => do
    let path ← within (claimPath parent namespaceText b.id)
    return .reference { b with id := path } r e
  | .group b cs info e => do
    let path ← within (claimPath parent namespaceText b.id)
    let own ← Run.lift (scope.enter info fps)
    let inner := innerPath parent path
    let innerText := innerNamespace namespaceText b info
    let children ← qualifyAll d fps inner innerText own cs
    let duration ← Run.lift (durationFrames fps info.duration)
    let compiled : Object R :=
      .group { b with id := path } children (compiledInfo info own.start duration) e
    collectTransitions d fps compiled own.start duration info.transition path
    collectAll d fps children inner (.scaled own) info.animations
    collectAll d fps children inner .absolute
      (info.resolved.map (withoutLead innerText))
    return compiled

def qualifyAll (d : Disk) (fps : Number R) (parent namespaceText : String) (scope : TimeScope R) :
    List (Object R) → Run (Flattener R) (List (Object R))
  | [] => return []
  | o :: rest => do
    let first ← qualify d fps parent namespaceText scope o
    let others ← qualifyAll d fps parent namespaceText scope rest
    return first :: others

end

/-- Flattens a tree with the animations of its document, whose tracks come first. -/
def flatten (d : Disk) (fps : Number R) (objects : List (Object R)) (entries : List (Entry R))
    (speed : Option (Number R)) :
    Run (Flattener R) (List (Object R) × List (Track R)) := do
  modify fun f => { f with paths := [], tracks := [] }
  let scope := TimeScope.root speed
  let compiled ← qualifyAll d fps "" "" scope objects
  let own ← within (emitAll d fps compiled "" (.scaled scope) entries)
  return (compiled, own ++ (← get).tracks)

end Flattener

end Storyboard
