import Storyboard.Object

namespace Storyboard.Address

/-- The path of an id in a scope. -/
def join (scope id : String) : String := if scope == "" then id else scope ++ "." ++ id

variable {R : Type}

mutual

/-- An object as a list of the objects that can be addressed in its place. -/
def members : Object R → List (Object R)
  | .group b cs info e => if b.id.isNone then level cs else [.group b cs info e]
  | .shape b s e => [.shape b s e]
  | .reference b r e => [.reference b r e]

/-- The objects that can be addressed on the level of a list of objects. -/
def level : List (Object R) → List (Object R)
  | [] => []
  | o :: rest => members o ++ level rest

end

mutual

/-- An object and all that it holds, groups before their children. -/
def under : Object R → List (Object R)
  | .group b cs info e => .group b cs info e :: walk cs
  | .shape b s e => [.shape b s e]
  | .reference b r e => [.reference b r e]

/-- All objects of a tree in the order of their declaration, groups before their children. -/
def walk : List (Object R) → List (Object R)
  | [] => []
  | o :: rest => under o ++ walk rest

end

/-- The object with an id on the level of a list of objects. -/
def findLocal (objects : List (Object R)) (id : String) : Option (Object R) :=
  (level objects).find? fun o => o.id == some id

def follow : List (Object R) → String → List String → Option (Object R)
  | _, _, [] => none
  | objects, scope, [segment] => findLocal objects (join scope segment)
  | objects, scope, segment :: rest =>
    match findLocal objects (join scope segment) with
    | some o => follow o.children (join scope segment) rest
    | none => none

/-- The segments of a path: the texts between its dots. -/
def segments (path : String) : List String :=
  let rec split : List Char → List Char → List String
    | acc, [] => [String.ofList acc.reverse]
    | acc, c :: cs =>
      if c == '.' then String.ofList acc.reverse :: split [] cs else split (c :: acc) cs
  split [] path.toList

/-- The object at a path from a scope whose members are given. -/
def find (objects : List (Object R)) (path : String) (scope : String) : Option (Object R) :=
  follow objects scope (segments path)

/-- Whether an id is a local id, or ends in it after a dot. -/
def endsIn (id localId : String) : Bool :=
  id == localId || ('.' :: localId.toList).isSuffixOf id.toList

/-- All objects of a tree whose id ends in a local id. -/
def descendants (objects : List (Object R)) (localId : String) : List (Object R) :=
  (walk objects).filter fun o =>
    match o.id with
    | some id => endsIn id localId
    | none => false

end Storyboard.Address
