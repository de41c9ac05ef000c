import Storyboard.Disk
import Storyboard.Document
import Storyboard.Effect
import Storyboard.Order

namespace Storyboard

/-- A computation with a state that is kept even when it is refused. -/
abbrev Run (σ α : Type) := ExceptT Fault (StateM σ) α

namespace Run

variable {σ α : Type}

def lift (o : Outcome α) : Run σ α := ExceptT.mk (pure o)

/-- A look at a disk as a computation. -/
def ofDisk (found : Except FileFault α) : Run σ α := lift (found.mapError Fault.read)

def exec (r : Run σ α) (s : σ) : Outcome α × σ := StateT.run (ExceptT.run r) s

end Run

/-- Components and scenes that were read, by their places. -/
structure DefinitionStore (R : Type) where
  cache : List (Place × Members R)

/-- Effects that were registered or read, by name, and the folders in which others are looked
for. -/
structure EffectLibrary (R : Type) where
  folders : List Route
  cache : List (String × Effect R)

variable {R : Type} [Scalar R]

namespace DefinitionStore

def empty : DefinitionStore R := ⟨[]⟩

def get? (s : DefinitionStore R) (p : Place) : Option (Members R) :=
  (s.cache.find? fun e => e.1 == p).map Prod.snd

def size (s : DefinitionStore R) : Nat := s.cache.length

def loadFault (path : String) (cause : FileFault) : Fault :=
  match cause with
  | .missing _ => .definitionNotFound path
  | _ => if cause.isOfContent then .definitionUnreadable path cause else .read cause

/-- The definition at a place: what was read there before, or else what the file holds now. -/
def load (d : Disk) (p : Place) : Run (DefinitionStore R) (Members R) := do
  match (← get).get? p with
  | some members => return members
  | none =>
    match d.readMembers p.text (Route.ofPlace p) with
    | .error cause => throw (loadFault p.text cause)
    | .ok members =>
      modify fun s => ⟨s.cache ++ [(p, members)]⟩
      return members

end DefinitionStore

namespace EffectLibrary

/-- A library that looks into some folders and has read nothing. -/
def ofFolders (folders : List Route) : EffectLibrary R := ⟨folders, []⟩

/-- Puts a definition under a name, replacing the one before. -/
def put (name : String) (e : Effect R) (l : EffectLibrary R) : EffectLibrary R :=
  { l with cache := Members.insert name e l.cache }

/-- The library without all that was registered or read. -/
def clear (l : EffectLibrary R) : EffectLibrary R := { l with cache := [] }

def register (name : String) (definition : Json R) : Run (EffectLibrary R) (Effect R) := do
  let e ← Run.lift (readDocument Effect.codec definition)
  modify (put name e)
  return e

def readFile (d : Disk) (name : String) (route : Route) : Outcome (Effect R) :=
  let path := route.text
  match d.readMembers (R := R) path route with
  | .error cause =>
    .error <|
      if cause.isOfContent then .effectUnreadable name path (.unreadable cause) else .read cause
  | .ok members =>
    match Effect.codec.read (.obj members) with
    | .error issues => .error (.effectUnreadable name path (.issues issues))
    | .ok e => .ok e

/-- The file of an effect in the first of the folders that has it. -/
def findFile (d : Disk) (name : String) : List Route → Except FileFault (Option Route)
  | [] => .ok none
  | folder :: rest => do
    let route := Route.ofPath folder (name ++ ".json")
    if ← d.hasFile route then return some route else findFile d name rest

def stem? (file : String) : Option String :=
  let ending := ".json".toList
  let cs := file.toList
  if ending.isSuffixOf cs then
    some (if cs == ending then file else String.ofList (cs.take (cs.length - ending.length)))
  else none

/-- Each element once, where it stands first. -/
def distinct (names : List String) : List String :=
  names.foldl (fun seen n => if seen.contains n then seen else seen ++ [n]) []

/-- The names of all effects that can be found, in ascending order. -/
def names (d : Disk) (l : EffectLibrary R) : Except FileFault (List String) := do
  let files ← l.folders.mapM d.entries
  let stems := files.flatten.filterMap stem?
  return Order.sort Text.before (distinct (l.cache.map (·.1) ++ stems))

/-- The effect of a name: what was registered or read before, or else what the first folder with
such a file holds now. -/
def get (d : Disk) (name : String) : Run (EffectLibrary R) (Effect R) := do
  let l ← MonadState.get
  match Members.get? name l.cache with
  | some e => return e
  | none =>
    match ← Run.ofDisk (findFile d name l.folders) with
    | none => throw (.effectNotFound name (← Run.ofDisk (l.names d)))
    | some route =>
      let e ← Run.lift (readFile d name route)
      modify (put name e)
      return e

end EffectLibrary

end Storyboard
