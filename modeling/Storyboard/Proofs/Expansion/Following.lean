import Storyboard.Proofs.Expansion.Instance
import Storyboard.Rational

namespace Storyboard

variable {R : Type} [Scalar R]

/-- What a store gives for a place. -/
def DefinitionStore.given? (d : Disk) (s : DefinitionStore R) (p : Place) : Option (Members R) :=
  match s.get? p with
  | some members => some members
  | none => (d.readMembers p.text (Route.ofPlace p)).toOption

theorem DefinitionStore.gives_of_given? {d : Disk} {s : DefinitionStore R} {p : Place}
    {members : Members R} (h : s.given? d p = some members) : s.Gives d p members := by
  rw [given?] at h
  split at h
  · rename_i found hget
    cases h
    exact .inl hget
  · rename_i hget
    exact .inr ⟨hget, toOption_eq_some.mp h⟩

namespace Instance

/-- How a reference in a folder is followed, given the files that are open around it. -/
abbrev Follower (R : Type) :=
  Place → List Place → Base R → Reference R → Members R → Option (Instance R)

section

variable (onReference : Follower R) (folder : Place) (chain : List Place)

mutual

/-- The instance of an object, given how a reference is followed. -/
def ofTree : Object R → Option (Instance R)
  | .shape b s e => some (.shape b s e)
  | .reference b r e => onReference folder chain b r e
  | .group b cs info e => (ofTrees cs).map (.group b · info e)

def ofTrees : List (Object R) → Option (List (Instance R))
  | [] => some []
  | o :: rest => (ofTree o).bind fun first => (ofTrees rest).map (first :: ·)

end

end

/-- Follows references down to a depth. -/
def follow (d : Disk) (store : DefinitionStore R) : Nat → Follower R
  | 0 => fun _ _ _ _ _ => none
  | depth + 1 => fun folder chain b r e => do
    let src ← r.source
    let place ← (Place.locate folder src).toOption
    if place ∈ chain then none
    else
      let payload ← store.given? d place
      let file ← (Expansion.define r.kind place.text payload).toOption
      let cs ← ofTrees (follow d store depth) place.folder (chain ++ [place]) file.objects
      some (.opened b r e place file cs)

variable {d : Disk} {store : DefinitionStore R}

/-- What is followed to an instance has that instance. -/
def Sound (d : Disk) (store : DefinitionStore R) (onReference : Follower R) : Prop :=
  ∀ folder chain b r e i, onReference folder chain b r e = some i →
    i.declared = .reference b r e ∧ i.Valid d store folder chain

theorem ofTrees_sound {onReference : Follower R} (hsound : Sound d store onReference)
    {folder : Place} {chain : List Place} {objects : List (Object R)}
    {instances : List (Instance R)}
    (h : ofTrees onReference folder chain objects = some instances) :
    declaredAll instances = objects ∧ ValidAll d store folder chain instances := by
  induction objects using Object.forest generalizing instances with
  | nil =>
    cases h
    exact ⟨rfl, trivial⟩
  | shape b s e rest ih =>
    obtain ⟨first, hfirst, h⟩ := Option.bind_eq_some_iff.mp h
    obtain ⟨others, hothers, rfl⟩ := Option.map_eq_some_iff.mp h
    cases hfirst
    obtain ⟨hdeclared, hvalid⟩ := ih hothers
    refine ⟨?_, trivial, hvalid⟩
    rw [declaredAll, hdeclared]
    rfl
  | reference b r e rest ih =>
    obtain ⟨first, hfirst, h⟩ := Option.bind_eq_some_iff.mp h
    obtain ⟨others, hothers, rfl⟩ := Option.map_eq_some_iff.mp h
    obtain ⟨hreference, hfirst⟩ := hsound _ _ _ _ _ _ hfirst
    obtain ⟨hdeclared, hvalid⟩ := ih hothers
    refine ⟨?_, hfirst, hvalid⟩
    rw [declaredAll, hdeclared, hreference]
  | group b cs info e rest ihChildren ihRest =>
    obtain ⟨first, hfirst, h⟩ := Option.bind_eq_some_iff.mp h
    obtain ⟨others, hothers, rfl⟩ := Option.map_eq_some_iff.mp h
    obtain ⟨children, hchildren, rfl⟩ := Option.map_eq_some_iff.mp hfirst
    obtain ⟨hinner, hcs⟩ := ihChildren hchildren
    obtain ⟨hdeclared, hvalid⟩ := ihRest hothers
    refine ⟨?_, hcs, hvalid⟩
    rw [declaredAll, declared, hinner, hdeclared]

theorem follow_sound (depth : Nat) : Sound d store (follow d store depth : Follower R) := by
  induction depth with
  | zero =>
    intro folder chain b r e i h
    cases h
  | succ depth ih =>
    intro folder chain b r e i h
    obtain ⟨src, hsrc, h⟩ := Option.bind_eq_some_iff.mp h
    obtain ⟨place, hplace, h⟩ := Option.bind_eq_some_iff.mp h
    split at h
    · cases h
    · rename_i hchain
      obtain ⟨payload, hpayload, h⟩ := Option.bind_eq_some_iff.mp h
      obtain ⟨file, hfile, h⟩ := Option.bind_eq_some_iff.mp h
      obtain ⟨cs, hcs, h⟩ := Option.bind_eq_some_iff.mp h
      cases h
      obtain ⟨hdeclared, hvalid⟩ := ofTrees_sound ih hcs
      have hgives := DefinitionStore.gives_of_given? hpayload
      refine ⟨rfl, ⟨src, hsrc, ?_⟩, hchain, ⟨payload, hgives, ?_⟩, hdeclared, hvalid⟩
      · exact toOption_eq_some.mp hplace
      · exact toOption_eq_some.mp hfile

/-- The instances of a document, references followed down to a depth. -/
def ofDocument (d : Disk) (store : DefinitionStore R) (depth : Nat) (folder : Place)
    (objects : List (Object R)) : Option (List (Instance R)) :=
  ofTrees (follow d store depth) folder [] objects

theorem of_ofDocument {depth : Nat} {folder : Place} {objects : List (Object R)}
    {instances : List (Instance R)}
    (h : ofDocument d store depth folder objects = some instances) :
    Of d store folder objects instances := by
  obtain ⟨hdeclared, hvalid⟩ := ofTrees_sound (follow_sound depth) h
  exact ⟨hdeclared, hvalid⟩

end Instance

/-- A component with a nameless scene, which has a group and a rectangle of the names `c` and `x`
and a rectangle `x` in the group, and moves the latter. -/
def nestedFiles : DefinitionStore Rat :=
  let rect : Json Rat := .obj [("type", .str "rect"), ("id", .str "x"), ("width", .num (.int 1)),
    ("height", .num (.int 1))]
  ⟨[(⟨["c.json"]⟩, [("objects", .arr [.obj [("type", .str "scene"), ("source", .str "s.json")]])]),
    (⟨["s.json"]⟩, [("objects", .arr [.obj [("type", .str "group"), ("id", .str "c"),
        ("children", .arr [rect])], rect]),
      ("animations", .arr [.obj [("target", .str "c.x"), ("property", .str "opacity"),
        ("keyframes", .arr [.obj [("start", .num (.int 0)), ("value", .num (.int 0))]])]])])]⟩

/-- A document with one component. -/
def nestedDocument (id : String) : Document Rat :=
  ⟨⟨320, 240, 30, 60, []⟩, none,
    [.reference (.ofId (some id)) ⟨.component [], some "c.json", none, none, none⟩ []], [], []⟩

end Storyboard
