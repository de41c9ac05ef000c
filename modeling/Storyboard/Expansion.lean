import Storyboard.Definitions
import Storyboard.Time
import Storyboard.Token

namespace Storyboard.Expansion

variable {R : Type} [Scalar R]

mutual

/-- The object with its id, and every id below it, behind a prefix. -/
def prefixed (lead : String) : Object R → Object R
  | .group b cs info e =>
    .group { b with id := b.id.map (lead ++ ·) } (prefixedAll lead cs) info e
  | .shape b s e => .shape { b with id := b.id.map (lead ++ ·) } s e
  | .reference b r e => .reference { b with id := b.id.map (lead ++ ·) } r e

def prefixedAll (lead : String) : List (Object R) → List (Object R)
  | [] => []
  | o :: rest => prefixed lead o :: prefixedAll lead rest

end

/-- A time value at a frame rate, behind an offset. -/
def shiftedStart (offset : Int) (fps : Number R) (start : Quantity R) : Outcome (Quantity R) := do
  let frame ← Time.frame fps start
  return .number (.int (offset + frame))

/-- An animation of a file with its start frames behind an offset and its target behind a
prefix. -/
def shifted (offset : Int) (lead : String) (fps : Number R) : Entry R → Outcome (Entry R)
  | .effect e => do
    let start ← shiftedStart offset fps e.start
    return .effect { e with target := lead ++ e.target, start := start }
  | .track t => do
    let keyframes ← t.keyframes.mapM fun k => do
      let start ← shiftedStart offset fps k.start
      return { k with start := start }
    return .track { t with target := lead ++ t.target, keyframes := keyframes }

/-- The value of each parameter: what the reference gives, or else the declared default. -/
def parameters (payload given : Members R) : Outcome (Members R) :=
  let declared (j : Json R) : Outcome (Members R) :=
    if j.isFilled then
      match j with
      | .obj ms => .ok ms
      | _ => .error .notAMapping
    else .ok []
  let defaults (ms : Members R) : Members R :=
    ms.filterMap fun m => (m.2.member? "default").map (m.1, ·)
  match Members.get? "parameters" payload with
  | none => .ok (Members.merge [] given)
  | some j => (declared j).map fun ms => Members.merge (defaults ms) given

/-- The payload of a component with its parameters put into its objects and animations. -/
def withParameters (params payload : Members R) : Members R :=
  payload.map fun m =>
    if m.1 == "objects" || m.1 == "animations" then (m.1, Token.substitute params m.2) else m

/-- What a file defines: objects, animations and, for a scene, a duration. -/
structure Definition (R : Type) where
  objects : List (Object R)
  animations : List (Entry R)
  duration : Option (Quantity R)

def define (kind : ReferenceKind R) (path : String) (payload : Members R) :
    Outcome (Definition R) := do
  match kind with
  | .component given =>
    let params ← parameters payload given
    match Component.codec.read (.obj (withParameters params payload)) with
    | .ok c => return ⟨c.objects, c.animations, none⟩
    | .error issues => throw (.invalidDefinition kind.name path issues)
  | .scene =>
    match Scene.codec.read (.obj payload) with
    | .ok s => return ⟨s.objects, s.animations, s.duration⟩
    | .error issues => throw (.invalidDefinition kind.name path issues)

/-- Where an expansion is: the folder that sources start from, the frame at which the surrounding
group starts, and the files that are being expanded, outermost first. -/
structure Context where
  folder : Place
  offset : Int
  chain : List Place

def isGiven : Option String → Bool
  | some s => s != ""
  | none => false

/-- The source of a reference, refused unless it may be followed. -/
def source (b : Base R) (r : Reference R) : Outcome String := do
  match r.kind with
  | .component _ => if !isGiven b.id then throw .componentWithoutId
  | .scene => pure ()
  match r.source with
  | some s =>
    if s == "" then
      throw (.referenceWithoutSource r.kind.name (if isGiven b.id then b.id.getD "" else "unknown"))
    else return s
  | none =>
    throw (.referenceWithoutSource r.kind.name (if isGiven b.id then b.id.getD "" else "unknown"))

/-- The prefix that a reference puts in front of ids. -/
def lead (b : Base R) : String := if isGiven b.id then b.id.getD "" ++ "." else ""

/-- Expands a list of objects, given how a reference is expanded where it stands. -/
abbrev Expander (R : Type) :=
  Context → Base R → Reference R → Run (DefinitionStore R) (Object R)

mutual

/-- Expands the references in an object, given how one reference is expanded. -/
def expandTree (onReference : Expander R) (fps : Number R) (c : Context) :
    Object R → Run (DefinitionStore R) (Object R)
  | .shape b s e => return .shape b s e
  | .reference b r _ => onReference c b r
  | .group b cs info e => do
    let start ← Run.lift (Time.frameOrZero fps info.start)
    let children ← expandTrees onReference fps { c with offset := c.offset + start } cs
    return .group b children info e

def expandTrees (onReference : Expander R) (fps : Number R) (c : Context) :
    List (Object R) → Run (DefinitionStore R) (List (Object R))
  | [] => return []
  | o :: rest => do
    let first ← expandTree onReference fps c o
    let others ← expandTrees onReference fps c rest
    return first :: others

end

/-- Expands one reference, given how those in its file are expanded. -/
def expandOne (inner : Expander R) (d : Disk) (fps : Number R) : Expander R := fun c b r => do
  let src ← Run.lift (source b r)
  let place ← Run.ofDisk (Place.locate c.folder src)
  if c.chain.contains place then
    throw (.circularReference ((c.chain ++ [place]).map Place.text))
  let payload ← DefinitionStore.load d place
  let definition ← Run.lift (define r.kind place.text payload)
  let start ← Run.lift (Time.frameOrZero fps r.start)
  let offset := c.offset + start
  let objects :=
    if lead b == "" then definition.objects else prefixedAll (lead b) definition.objects
  let children ← expandTrees inner fps ⟨place.folder, offset, c.chain ++ [place]⟩ objects
  let resolved ← Run.lift (definition.animations.mapM (shifted offset (lead b) fps))
  let info : GroupInfo R :=
    { start := r.start
      duration := r.duration.or definition.duration
      speed := none
      animations := []
      transition := r.transition
      expandedFrom := some place.text
      resolved := resolved }
  return .group b children info []

/-- Expands references down to a depth of nesting. -/
def expandReference (d : Disk) (fps : Number R) : Nat → Expander R
  | 0 => fun c _ _ => throw (.circularReference (c.chain.map Place.text))
  | depth + 1 => expandOne (expandReference d fps depth) d fps

/-- Expands every reference in a list of objects. No more references are nested than there are
places on a disk or in the store. -/
def expandObjects (d : Disk) (fps : Number R) (c : Context) (objects : List (Object R)) :
    Run (DefinitionStore R) (List (Object R)) := do
  let store ← get
  expandTrees (expandReference d fps (Place.limit + store.size + 1)) fps c objects

end Storyboard.Expansion
