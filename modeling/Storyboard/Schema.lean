import Storyboard.Json
import Storyboard.Text.Half

namespace Storyboard

/-- A way to read a value from JSON and to write it. -/
structure Codec (R α : Type) where
  read : Json R → Checked α
  write : α → Json R

namespace Codec

variable {R α β : Type}

/-- Any JSON value. -/
def raw : Codec R (Json R) := ⟨.ok, id⟩

/-- Lists, the issues of an item standing under its place. -/
def list (c : Codec R α) : Codec R (List α) where
  read
    | .arr items => Checked.indexed c.read 0 items
    | _ => Checked.fail .notAList
  write items := .arr (items.map c.write)

/-- The members of an object, the issues of a member standing under its name, halves of characters
replaced. -/
def map (c : Codec R α) : Codec R (List (String × α)) where
  read
    | .obj members =>
      Checked.all
        (fun m => ((c.read m.2).under (.key (Text.withoutHalves m.1))).map (m.1, ·)) members
    | _ => Checked.fail .notAMap
  write members := .obj (members.map fun m => (m.1, c.write m.2))

def strayName (s : String) : IssueKind := if Text.hasHalf s then .halfInText else .notAChoice

/-- Names of a fixed set. -/
def choice (ofName? : String → Option α) (name : α → String) : Codec R α where
  read
    | .str s =>
      match ofName? s with
      | some a => .ok a
      | none => Checked.fail (strayName s)
    | _ => Checked.fail .notAChoice
  write a := .str (name a)

/-- Values that take up one of so many levels of records. Without a level none is read, whatever it
is. -/
def within (room : Nat) (c : Codec R α) : Codec R α where
  read j := if room == 0 then Checked.fail .nestedTooDeep else c.read j
  write := c.write

end Codec

/-- The names under which a field is found: the one that is written, and another spelling. -/
structure FieldName where
  wire : String
  plain : String

namespace FieldName

def same (name : String) : FieldName := ⟨name, name⟩

variable {R : Type}

/-- The member of a field under the name by which it is given, and the members without it. The
written name goes before the other. -/
def take (name : FieldName) (ms : Members R) : Option (String × Json R) × Members R :=
  match Members.get? name.wire ms with
  | some j => (some (name.wire, j), Members.erase name.wire ms)
  | none =>
    match Members.get? name.plain ms with
    | some j => (some (name.plain, j), Members.erase name.plain ms)
    | none => (none, ms)

def within (name : FieldName) (ms : Members R) : Bool :=
  Members.has name.wire ms || Members.has name.plain ms

end FieldName

instance : Coe String FieldName := ⟨FieldName.same⟩

/-- A part `α` of a record `ρ`: how it is read from members, of which it leaves the others, and the
members that it writes. -/
structure Fields (R ρ α : Type) where
  read : Members R → Checked α × Members R
  write : ρ → Members R

namespace Fields

variable {R ρ σ α β : Type}

/-- A part that stands in no member. -/
def const (a : α) : Fields R ρ α := ⟨fun ms => (.ok a, ms), fun _ => []⟩

def combine (f : Fields R ρ (α → β)) (x : Fields R ρ α) : Fields R ρ β where
  read ms :=
    let (g, ms) := f.read ms
    let (a, ms) := x.read ms
    (Checked.both (fun g a => g a) g a, ms)
  write r := f.write r ++ x.write r

instance : Applicative (Fields R ρ) where
  pure := const
  seq f x := combine f (x ())

def within (part : σ → ρ) (f : Fields R ρ α) : Fields R σ α := ⟨f.read, fun s => f.write (part s)⟩

def required (name : FieldName) (c : Codec R α) (get : ρ → α) : Fields R ρ α where
  read ms :=
    match name.take ms with
    | (some (given, j), rest) => ((c.read j).under (.key given), rest)
    | (none, rest) => ((Checked.fail .missing).under (.key name.wire), rest)
  write r := [(name.wire, c.write (get r))]

/-- A field that may be absent or null, and is then not written. -/
def optional (name : FieldName) (c : Codec R α) (get : ρ → Option α) : Fields R ρ (Option α) where
  read ms :=
    match name.take ms with
    | (some (_, .null), rest) => (.ok none, rest)
    | (some (given, j), rest) => (((c.read j).under (.key given)).map some, rest)
    | (none, rest) => (.ok none, rest)
  write r :=
    match get r with
    | some a => [(name.wire, c.write a)]
    | none => []

/-- A field with a value for when it is absent. It is always written. -/
def defaulted (name : FieldName) (c : Codec R α) (default : α) (get : ρ → α) : Fields R ρ α where
  read ms :=
    match name.take ms with
    | (some (given, j), rest) => ((c.read j).under (.key given), rest)
    | (none, rest) => (.ok default, rest)
  write r := [(name.wire, c.write (get r))]

/-- A field that has to be there and may be null, which is then not written. -/
def anything (name : FieldName) (get : ρ → Json R) : Fields R ρ (Json R) where
  read ms :=
    match name.take ms with
    | (some (_, j), rest) => (.ok j, rest)
    | (none, rest) => ((Checked.fail .missing).under (.key name.wire), rest)
  write r :=
    match get r with
    | .null => []
    | j => [(name.wire, j)]

/-- A field that names the kind of the record. It may be absent and is always written. -/
def tag (name : String) (kind : String) : Fields R ρ Unit where
  read ms :=
    match (FieldName.same name).take ms with
    | (some (_, .str s), rest) =>
      (if s == kind then .ok () else (Checked.fail (Codec.strayName s)).under (.key name), rest)
    | (some _, rest) => ((Checked.fail .notAChoice).under (.key name), rest)
    | (none, rest) => (.ok (), rest)
  write _ := [(name, .str kind)]

/-- The members that no field takes. Those that are null are not written. -/
def rest (get : ρ → Members R) : Fields R ρ (Members R) where
  read ms := (.ok ms, [])
  write r := (get r).filter fun m => !m.2.isNull

/-- A record as a value. Half of a character in a name is an issue with the record as a whole, in
place of any other. -/
def record (f : Fields R ρ ρ) : Codec R ρ where
  read
    | .obj members =>
      if members.any fun m => Text.hasHalf m.1 then Checked.fail .halfInText
      else (f.read members).1
    | _ => Checked.fail .notARecord
  write r := .obj (f.write r)

end Fields

end Storyboard
