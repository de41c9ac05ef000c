import Storyboard.Object.Schema

namespace Storyboard.Object

variable {R : Type}

def shownId (o : Object R) : String :=
  match o.id with
  | some id => if id == "" then "unknown" else id
  | none => "unknown"

/-- The required properties that an object does not have. -/
def missingProperties : Object R → List String
  | shape _ s _ =>
    let absent (properties : List (String × Bool)) : List String :=
      (properties.filter fun p => p.2).map (·.1)
    match s with
    | .rect r => absent [("width", r.width.isNone), ("height", r.height.isNone)]
    | .circle c => absent [("radius", c.radius.isNone)]
    | .ellipse e => absent [("radiusX", e.radiusX.isNone), ("radiusY", e.radiusY.isNone)]
    | .text t => absent [("content", t.content.isNone)]
    | .image i => absent [("source", i.source.isNone)]
    | .line l => absent [("x2", l.x2.isNone), ("y2", l.y2.isNone)]
    | .point _ | .path _ => []
  | reference _ r _ => if r.source.isNone then ["source"] else []
  | group .. => []

def declaredNumber : Option (Number R) → Option (Json R) := Option.map Json.num

/-- The sizes that must not be negative: the name of each, and its value where the object declares
it or has it beside its declared fields. -/
def sizes (o : Object R) : List (String × Option (Json R)) :=
  let extra (name : String) : Option (Json R) := Members.get? name o.extras
  let others := [("width", extra "width"), ("height", extra "height"), ("radius", extra "radius"),
    ("radiusX", extra "radius_x"), ("radiusY", extra "radius_y")]
  let withDeclared (declared : List (String × Option (Number R))) :
      List (String × Option (Json R)) :=
    others.map fun e =>
      match Members.get? e.1 declared with
      | some n => (e.1, declaredNumber n)
      | none => e
  match o with
  | shape _ s _ =>
    match s with
    | .image i => withDeclared [("width", i.width), ("height", i.height)]
    | .rect r => withDeclared [("width", r.width), ("height", r.height)]
    | .point p => withDeclared [("radius", p.radius)]
    | .circle c => withDeclared [("radius", c.radius)]
    | .ellipse e => withDeclared [("radiusX", e.radiusX), ("radiusY", e.radiusY)]
    | .text _ | .line _ | .path _ => others
  | group .. | reference .. => others

section

variable [Scalar R]

def negativeSize (id : String) : String × Option (Json R) → Option ObjectProblem
  | (name, some (.num n)) => if n.lt (.int 0) then some (.negative id name n.text) else none
  | _ => none

def groupProblems (id : String) (hasId : Bool) (info : GroupInfo R) : List ObjectProblem :=
  let speed :=
    match info.speed with
    | some v => if (Scalar.exact v).le (.finite 0) then [.speed id (Scalar.text v)] else []
    | none => []
  let transition :=
    match info.transition with
    | some t =>
      (if hasId then [] else [.transitionWithoutId]) ++
        if t.leave.isSome && info.duration.isNone then [.outTransitionWithoutDuration id] else []
    | none => []
  speed ++ transition

/-- The problems of an object, those of its children left out. -/
def problems (o : Object R) : List ObjectProblem :=
  let id := o.shownId
  let opacity :=
    match o.base.opacity with
    | some n =>
      if (Number.int 0).le n && n.le (.int 1) then [] else [ObjectProblem.opacity id n.text]
    | none => []
  let own :=
    match o with
    | group b _ info _ => groupProblems id b.id.isSome info
    | reference b ⟨.component _, _, _, _, _⟩ _ =>
      if b.id.isNone then [ObjectProblem.componentWithoutId] else []
    | _ => []
  o.missingProperties.map (.requires id o.kind) ++ o.sizes.filterMap (negativeSize id) ++ opacity ++
    own

/-- The problems of ids that occur more than once in a list of objects. -/
def duplicateIds (scope : String) : List String → List (Object R) → List ObjectProblem
  | _, [] => []
  | seen, o :: rest =>
    match o.id with
    | none => duplicateIds scope seen rest
    | some id =>
      if seen.contains id then .duplicateId id scope :: duplicateIds scope seen rest
      else duplicateIds scope (id :: seen) rest

/-- The scope that the children of an object are in. -/
def childScope (scope : String) (o : Object R) : String :=
  match o.id with
  | some id => if id == "" then scope else id
  | none => scope

mutual

/-- The problems of an object and of all that it holds. -/
def deepProblems (scope : String) : Object R → List ObjectProblem
  | group b cs info e =>
    problems (group b cs info e) ++
      (duplicateIds (childScope scope (group b cs info e)) [] cs ++
        deepProblemsOfAll (childScope scope (group b cs info e)) cs)
  | shape b s e => problems (shape b s e)
  | reference b r e => problems (reference b r e)

def deepProblemsOfAll (scope : String) : List (Object R) → List ObjectProblem
  | [] => []
  | o :: rest => deepProblems scope o ++ deepProblemsOfAll scope rest

end

def treeProblems (objects : List (Object R)) (scope : String) : List ObjectProblem :=
  duplicateIds scope [] objects ++ deepProblemsOfAll scope objects

/-- Refuses a tree of objects that has problems. -/
def checkTree (objects : List (Object R)) : Outcome Unit :=
  let found := treeProblems objects ""
  if found.isEmpty then .ok () else .error (.objects found)

end

end Storyboard.Object
