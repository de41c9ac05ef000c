import Storyboard.FileName
import Storyboard.Json.Reader
import Storyboard.Json.Writer

namespace Storyboard

/-- The place of a file or folder, by the names from the root on. -/
structure Place where
  names : List String
  deriving DecidableEq, Repr

/-- Names from the root on, `..` standing for the folder above. A path that begins with exactly two
slashes keeps both. -/
structure Route where
  doubled : Bool
  names : List String
  deriving DecidableEq, Repr

namespace Route

/-- The names that a path is made of; empty ones and single dots do not count. -/
def namesOf (path : String) : List String :=
  let rec split : List Char → List Char → List String
    | acc, [] => [String.ofList acc.reverse]
    | acc, c :: cs =>
      if c == '/' then String.ofList acc.reverse :: split [] cs else split (c :: acc) cs
  (split [] path.toList).filter fun n => n != "" && n != "."

def isAbsolute (path : String) : Bool := path.toList.head? == some '/'

/-- Whether a path begins with two slashes and no third. -/
def isDoubled (path : String) : Bool :=
  match path.toList with
  | '/' :: '/' :: rest => rest.head? != some '/'
  | _ => false

def ofPlace (p : Place) : Route := ⟨false, p.names⟩

def ofPath (folder : Route) (path : String) : Route :=
  if isAbsolute path then ⟨isDoubled path, namesOf path⟩
  else ⟨folder.doubled, folder.names ++ namesOf path⟩

def lead (doubled : Bool) : String := if doubled then "//" else "/"

def text (route : Route) : String := lead route.doubled ++ "/".intercalate route.names

def maxNameSize : Nat := 255

def maxPathSize : Nat := 4095

def isTooLong (name : String) : Bool := maxNameSize < FileName.size name

def fault? (text : String) : Option FileFault :=
  if !FileName.isEncodable text then some (.halfInPath text)
  else if text.toList.contains (Char.ofNat 0) then some (.nullInPath text)
  else none

/-- Refuses a text that is no path, or one that is too long. -/
def check (path : String) : Except FileFault Unit :=
  match fault? path with
  | some fault => .error fault
  | none => if maxPathSize < FileName.size path then .error (.nameTooLong path) else .ok ()

/-- Names as the path that they make beside another one: from the root if that one is. -/
def shownNames (path : String) (names : List String) : String :=
  let joined := "/".intercalate names
  if isAbsolute path then lead (isDoubled path) ++ joined
  else if joined == "" then "." else joined

/-- A path without empty names and single dots, as messages show it. -/
def shown (path : String) : String := shownNames path (namesOf path)

/-- The path without its last name. -/
def upper (path : String) : String := shownNames path (namesOf path).dropLast

end Route

namespace Place

def text (p : Place) : String := (Route.ofPlace p).text

def folder (p : Place) : Place := ⟨p.names.dropLast⟩

def child (p : Place) (name : String) : Place := ⟨p.names ++ [name]⟩

/-- The place that a route leads to when `..` takes back the name before it. -/
def ofRoute (route : Route) : Place :=
  ⟨route.names.foldl (fun names n => if n == ".." then names.dropLast else names ++ [n]) []⟩

def resolve (folder : Place) (path : String) : Place :=
  ofRoute (Route.ofPath (Route.ofPlace folder) path)

/-- The place of a text that starts from a folder, refused for the first of its names that is
none. -/
def locate (folder : Place) (path : String) : Except FileFault Place :=
  match (Route.namesOf path).findSome? Route.fault? with
  | some fault => .error fault
  | none => .ok (resolve folder path)

/-- More than the number of places whose files can be read. A path has so many bytes at most, and
each of them is kept in one of its names as at most two characters. -/
@[irreducible] def limit : Nat := Nat.pow (0x110000 + 2) (2 * Route.maxPathSize + 1)

/-- The place by the names as a disk knows them. -/
def canonical (p : Place) : Place := ⟨p.names.map FileName.canonical⟩

end Place

/-- Files by their places, and folders, all by the names as a disk knows them. -/
structure Disk where
  files : List (Place × ByteArray)
  folders : List Place

namespace Disk

def empty : Disk := ⟨[], []⟩

def file? (d : Disk) (p : Place) : Option ByteArray :=
  (d.files.find? fun f => f.1 == p.canonical).map Prod.snd

def isFile (d : Disk) (p : Place) : Bool := (d.file? p).isSome

/-- Whether a folder is at a place. The root is one. -/
def isFolder (d : Disk) (p : Place) : Bool := p.names.isEmpty || d.folders.contains p.canonical

/-- The places of the folders above a place. -/
def above (p : Place) : List Place :=
  (List.range p.names.length).map fun n => ⟨p.names.take n⟩

def addFolder (d : Disk) (p : Place) : Disk :=
  let missing := (above p ++ [p]).filter fun f => !d.isFolder f
  { d with folders := d.folders ++ missing.map Place.canonical }

def write (d : Disk) (p : Place) (content : ByteArray) : Disk :=
  let d := d.addFolder p.folder
  let p := p.canonical
  { d with files := d.files.filter (fun f => f.1 != p) ++ [(p, content)] }

/-- The disk after a file is removed. -/
def remove (d : Disk) (p : Place) : Disk :=
  { d with files := d.files.filter fun f => f.1 != p.canonical }

/-- The place that names lead to through folders that exist. `path` is the path as it was given. -/
def follow (d : Disk) (path : String) (current : Place) : List String → Except FileFault Place
  | [] => .ok current
  | name :: rest =>
    if d.isFolder current then
      if Route.isTooLong name then .error (.nameTooLong path)
      else follow d path (if name == ".." then current.folder else current.child name) rest
    else if d.isFile current then .error (.belowFile path)
    else .error (.missing path)

def bytes (d : Disk) (path : String) (route : Route) : Except FileFault ByteArray := do
  Route.check path
  let place ← d.follow path ⟨[]⟩ route.names
  match d.file? place with
  | some content => return content
  | none => if d.isFolder place then throw (.folder path) else throw (.missing path)

/-- The place that names lead to, if they can lead anywhere. `path` is the path as it was given.
Only a name that is too long is refused. -/
def lookUp (d : Disk) (path : String) (names : List String) : Except FileFault (Option Place) :=
  match Route.check path with
  | .error (.nameTooLong p) => .error (.nameTooLong p)
  | .error _ => .ok none
  | .ok () =>
    match d.follow path ⟨[]⟩ names with
    | .ok place => .ok (some place)
    | .error (.nameTooLong p) => .error (.nameTooLong p)
    | .error _ => .ok none

/-- The place that a route leads to, if it can lead anywhere. -/
def find (d : Disk) (route : Route) : Except FileFault (Option Place) :=
  d.lookUp route.text route.names

def hasFile (d : Disk) (route : Route) : Except FileFault Bool := do
  return (← d.find route).any d.isFile

/-- The names of the files and folders in the folder that a route leads to, if it leads to one. -/
def entries (d : Disk) (route : Route) : Except FileFault (List String) := do
  match ← d.find route with
  | none => return []
  | some folder =>
    if d.isFolder folder then
      return (d.files.map (·.1) ++ d.folders).filterMap fun p =>
        if p.names != [] && p.folder == folder.canonical then p.names.getLast? else none
    else return []

/-- The disk with the folder that names lead to, if the folder above it is there. -/
def makeFolder (d : Disk) (path : String) (names : List String) : Except FileFault Disk := do
  let place ← d.follow path ⟨[]⟩ names
  if d.isFolder place then return d
  else if d.isFile place then throw (.fileForFolder path)
  else return d.addFolder place

/-- The disk with the folder that names lead to, given from the last one on. A folder above it is
made first if it is missing. -/
def makeFolders (d : Disk) (path : String) : List String → Except FileFault Disk
  | [] => .ok d
  | name :: above =>
    match d.makeFolder path (name :: above).reverse with
    | .error (.missing _) => do (← makeFolders d path above).makeFolder path (name :: above).reverse
    | made => made

/-- The disk with the folder above a path that starts from another one. -/
def makeUpper (d : Disk) (folder : Route) (path : String) : Except FileFault Disk :=
  let upper := Route.upper path
  match Route.fault? upper with
  | some fault => .error fault
  | none => d.makeFolders path (Route.ofPath folder upper).names.reverse

/-- The disk after a file is written into a folder that is there. -/
def put (d : Disk) (folder : Route) (path : String) (content : ByteArray) :
    Except FileFault Disk := do
  Route.check (Route.shown path)
  let place ← d.follow path ⟨[]⟩ (Route.ofPath folder path).names
  if d.isFolder place then throw (.folder path) else return d.write place content

/-- The disk after a file is written. The folder it stands in is made if nothing is there. -/
def save (d : Disk) (folder : Route) (path : String) (content : ByteArray) :
    Except FileFault Disk := do
  let upper := Route.upper path
  let found ← d.lookUp upper (Route.ofPath folder upper).names
  let d ← if found.any fun p => d.isFolder p || d.isFile p then pure d
    else d.makeUpper folder path
  d.put folder path content

section

variable {R : Type} [Scalar R]

/-- How deep lists and objects may nest in a file. -/
def maxLevels : Nat := 985

/-- A fault of the text of a file as a fault of the file. -/
def textFault (path : String) : Json.ReadFault → FileFault
  | .malformed => .notJson path
  | .nestedTooDeep => .nestedTooDeep path
  | .numberTooLong digits => .numberTooLong path digits

def readJson (d : Disk) (path : String) (route : Route) : Except FileFault (Json R) := do
  let content ← d.bytes path route
  match String.fromUTF8? content with
  | none => throw (.notText path)
  | some text => (Json.read maxLevels text).mapError (textFault path)

/-- The members of the JSON object in the file that a route leads to. -/
def readMembers (d : Disk) (path : String) (route : Route) : Except FileFault (Members R) := do
  match ← d.readJson path route with
  | .obj members => return members
  | j => throw (.notAnObject path j.kind)

/-- The disk after a JSON value is written to a file, with a line for each item and member. -/
def writeJson (d : Disk) (p : Place) (j : Json R) : Disk := d.write p j.document.toUTF8

end

end Disk

end Storyboard
