import Storyboard.Expansion
import Storyboard.Proofs.Position
import Storyboard.Proofs.Stores

namespace Storyboard

/-- An object of a document, and for a reference the file it opens with the instances in it. -/
inductive Instance (R : Type) where
  | shape (base : Base R) (shape : Shape R) (extras : Members R)
  | group (base : Base R) (children : List (Instance R)) (info : GroupInfo R) (extras : Members R)
  | opened (base : Base R) (ref : Reference R) (extras : Members R) (place : Place)
    (file : Expansion.Definition R) (children : List (Instance R))

namespace Instance

variable {R : Type}

def base : Instance R → Base R
  | shape b _ _ => b
  | group b _ _ _ => b
  | opened b _ _ _ _ _ => b

def children : Instance R → List (Instance R)
  | shape .. => []
  | group _ cs _ _ => cs
  | opened _ _ _ _ _ cs => cs

theorem forest {motive : List (Instance R) → Prop} (nil : motive [])
    (shape : ∀ b s e rest, motive rest → motive (.shape b s e :: rest))
    (group : ∀ b cs info e rest, motive cs → motive rest → motive (.group b cs info e :: rest))
    (opened : ∀ b r e place file cs rest, motive cs → motive rest →
      motive (.opened b r e place file cs :: rest)) : ∀ instances, motive instances
  | [] => nil
  | .shape b s e :: rest => shape b s e rest (forest nil shape group opened rest)
  | .group b cs info e :: rest =>
    group b cs info e rest (forest nil shape group opened cs) (forest nil shape group opened rest)
  | .opened b r e place file cs :: rest =>
    opened b r e place file cs rest (forest nil shape group opened cs)
      (forest nil shape group opened rest)

/-- The instances on the way down to a position. -/
abbrev way (instances : List (Instance R)) (p : List Nat) : Option (List (Instance R)) :=
  wayDown children instances p

mutual

/-- The object that is declared. -/
def declared : Instance R → Object R
  | .shape b s e => .shape b s e
  | .group b cs info e => .group b (declaredAll cs) info e
  | .opened b r e _ _ _ => .reference b r e

def declaredAll : List (Instance R) → List (Object R)
  | [] => []
  | i :: rest => declared i :: declaredAll rest

end

theorem declaredAll_eq_nil {instances : List (Instance R)} (h : declaredAll instances = []) :
    instances = [] := by
  cases instances with
  | nil => rfl
  | cons i rest => cases h

theorem declaredAll_eq_cons {instances : List (Instance R)} {o : Object R} {os : List (Object R)}
    (h : declaredAll instances = o :: os) :
    ∃ i rest, instances = i :: rest ∧ i.declared = o ∧ declaredAll rest = os := by
  cases instances with
  | nil => cases h
  | cons i rest =>
    obtain ⟨hi, hrest⟩ := List.cons.inj h
    exact ⟨i, rest, rfl, hi, hrest⟩

theorem declared_eq_shape {i : Instance R} {b : Base R} {s : Shape R} {e : Members R}
    (h : i.declared = .shape b s e) : i = .shape b s e := by
  cases i with
  | shape b' s' e' =>
    cases h
    rfl
  | group b' cs info e' => cases h
  | opened b' r e' place file cs => cases h

theorem declared_eq_group {i : Instance R} {b : Base R} {os : List (Object R)} {info : GroupInfo R}
    {e : Members R} (h : i.declared = .group b os info e) :
    ∃ cs, i = .group b cs info e ∧ declaredAll cs = os := by
  cases i with
  | shape b' s e' => cases h
  | group b' cs info' e' =>
    obtain ⟨rfl, hcs, rfl, rfl⟩ := Object.group.inj h
    exact ⟨cs, rfl, hcs⟩
  | opened b' r e' place file cs => cases h

theorem declared_eq_reference {i : Instance R} {b : Base R} {r : Reference R} {e : Members R}
    (h : i.declared = .reference b r e) : ∃ place file cs, i = .opened b r e place file cs := by
  cases i with
  | shape b' s e' => cases h
  | group b' cs info e' => cases h
  | opened b' r' e' place file cs =>
    cases h
    exact ⟨place, file, cs, rfl⟩

/-- The base of an object behind a prefix. -/
def behind (lead : String) (b : Base R) : Base R := { b with id := b.id.map (lead ++ ·) }

@[simp] theorem behind_id (lead : String) (b : Base R) :
    (behind lead b).id = b.id.map (lead ++ ·) := rfl

theorem behind_empty (b : Base R) : behind "" b = b := by
  cases b
  simp [behind]

/-- What the group that stands for a file declares. -/
def standIn (r : Reference R) (place : Place) (file : Expansion.Definition R)
    (resolved : List (Entry R)) : GroupInfo R :=
  ⟨r.start, r.duration.or file.duration, none, [], r.transition, some place.text, resolved⟩

variable [Scalar R]

mutual

/-- Instances that stand in files as a store gives them, none in a file that is open around it. -/
def Valid (d : Disk) (store : DefinitionStore R) (folder : Place) (chain : List Place) :
    Instance R → Prop
  | .shape .. => True
  | .group _ cs _ _ => ValidAll d store folder chain cs
  | .opened _ r _ place file cs =>
    (∃ src, r.source = some src ∧ Place.locate folder src = .ok place) ∧ place ∉ chain ∧
      (∃ payload, store.Gives d place payload ∧
        Expansion.define r.kind place.text payload = .ok file) ∧
      declaredAll cs = file.objects ∧ ValidAll d store place.folder (chain ++ [place]) cs

def ValidAll (d : Disk) (store : DefinitionStore R) (folder : Place) (chain : List Place) :
    List (Instance R) → Prop
  | [] => True
  | i :: rest => Valid d store folder chain i ∧ ValidAll d store folder chain rest

end

mutual

/-- What expansion makes of an instance in a group that starts at a frame, its id behind a
prefix. -/
def expanded (fps : Number R) (lead : String) (offset : Int) : Instance R → Outcome (Object R)
  | .shape b s e => .ok (.shape (behind lead b) s e)
  | .group b cs info e => do
    let start ← Time.frameOrZero fps info.start
    let children ← expandedAll fps lead (offset + start) cs
    return .group (behind lead b) children info e
  | .opened b r _ place file cs => do
    let start ← Time.frameOrZero fps r.start
    let children ← expandedAll fps (Expansion.lead (behind lead b)) (offset + start) cs
    let resolved ← file.animations.mapM
      (Expansion.shifted (offset + start) (Expansion.lead (behind lead b)) fps)
    return .group (behind lead b) children (standIn r place file resolved) []

def expandedAll (fps : Number R) (lead : String) (offset : Int) :
    List (Instance R) → Outcome (List (Object R))
  | [] => .ok []
  | i :: rest => do
    let first ← expanded fps lead offset i
    let others ← expandedAll fps lead offset rest
    return first :: others

end

theorem ValidAll.mono {d : Disk} {s t : DefinitionStore R} (hst : s.Within d t)
    {folder : Place} {chain : List Place} {instances : List (Instance R)}
    (h : ValidAll d s folder chain instances) : ValidAll d t folder chain instances := by
  induction instances using forest generalizing folder chain with
  | nil => trivial
  | shape b sh e rest ih => exact ⟨trivial, ih h.2⟩
  | group b cs info e rest ihChildren ihRest => exact ⟨ihChildren h.1, ihRest h.2⟩
  | opened b r e place file cs rest ihChildren ihRest =>
    obtain ⟨⟨hsource, hchain, ⟨payload, hgives, hdefine⟩, hobjects, hcs⟩, hrest⟩ := h
    exact ⟨⟨hsource, hchain, ⟨payload, hst _ _ hgives, hdefine⟩, hobjects, ihChildren hcs⟩,
      ihRest hrest⟩

theorem Valid.children {d : Disk} {store : DefinitionStore R} {folder : Place}
    {chain : List Place} {i : Instance R} (h : Valid d store folder chain i) :
    ∃ inner open', ValidAll d store inner open' i.children := by
  cases i with
  | shape b s e => exact ⟨folder, chain, trivial⟩
  | group b cs info e => exact ⟨folder, chain, h⟩
  | opened b r e place file cs => exact ⟨_, _, h.2.2.2.2⟩

theorem ValidAll.of_mem {d : Disk} {store : DefinitionStore R} {folder : Place}
    {chain : List Place} {instances : List (Instance R)} {i : Instance R}
    (h : ValidAll d store folder chain instances) (hi : i ∈ instances) :
    Valid d store folder chain i := by
  induction instances with
  | nil => simp at hi
  | cons x rest ih =>
    rcases List.mem_cons.mp hi with rfl | hi
    · exact h.1
    · exact ih h.2 hi

theorem ValidAll.of_way {d : Disk} {store : DefinitionStore R} {folder : Place}
    {chain : List Place} {instances way : List (Instance R)} {p : List Nat} {i : Instance R}
    (h : ValidAll d store folder chain instances) (hw : Instance.way instances p = some way)
    (hi : i ∈ way) : ∃ inner open', Valid d store inner open' i := by
  induction p generalizing folder chain instances way with
  | nil =>
    cases hw
    simp at hi
  | cons j p ih =>
    obtain ⟨x, rest, hx, hrest, rfl⟩ := (wayDown_cons_eq_some _).mp hw
    have hvalid := h.of_mem (List.mem_of_getElem? hx)
    rcases List.mem_cons.mp hi with rfl | hi
    · exact ⟨folder, chain, hvalid⟩
    · obtain ⟨inner, open', hchildren⟩ := hvalid.children
      exact ih hchildren hrest hi

/-- Files are what the store gives, so objects have their instances in one way only. -/
theorem ValidAll.unique {d : Disk} {store : DefinitionStore R} {folder : Place}
    {chain : List Place} {instances others : List (Instance R)}
    (h : ValidAll d store folder chain instances) (h' : ValidAll d store folder chain others)
    (hdeclared : declaredAll instances = declaredAll others) : instances = others := by
  induction instances using forest generalizing folder chain others with
  | nil => exact (declaredAll_eq_nil hdeclared.symm).symm
  | shape b sh e rest ih =>
    obtain ⟨i, rest', rfl, hi, hrest⟩ := declaredAll_eq_cons hdeclared.symm
    obtain rfl := declared_eq_shape hi
    rw [ih h.2 h'.2 hrest.symm]
  | group b cs info e rest ihChildren ihRest =>
    obtain ⟨i, rest', rfl, hi, hrest⟩ := declaredAll_eq_cons hdeclared.symm
    obtain ⟨cs', rfl, hcs⟩ := declared_eq_group hi
    rw [ihChildren h.1 h'.1 hcs.symm, ihRest h.2 h'.2 hrest.symm]
  | opened b r e place file cs rest ihChildren ihRest =>
    obtain ⟨i, rest', rfl, hi, hrest⟩ := declaredAll_eq_cons hdeclared.symm
    obtain ⟨place', file', cs', rfl⟩ := declared_eq_reference hi
    obtain ⟨⟨⟨src, hsrc, hplace⟩, -, ⟨payload, hgives, hdefine⟩, hobjects, hcs⟩, hvalid⟩ := h
    obtain ⟨⟨⟨src', hsrc', hplace'⟩, -, ⟨payload', hgives', hdefine'⟩, hobjects', hcs'⟩,
      hvalid'⟩ := h'
    obtain rfl : src = src' := Option.some.inj (hsrc.symm.trans hsrc')
    obtain rfl : place = place' := Except.ok.inj (hplace.symm.trans hplace')
    obtain rfl : payload = payload' := hgives.unique hgives'
    obtain rfl : file = file' := Except.ok.inj (hdefine.symm.trans hdefine')
    rw [ihChildren hcs hcs' (hobjects.trans hobjects'.symm), ihRest hvalid hvalid' hrest.symm]

/-- The instances of the objects of a document, whose sources start from a folder. -/
structure Of (d : Disk) (store : DefinitionStore R) (folder : Place) (objects : List (Object R))
    (instances : List (Instance R)) : Prop where
  declared : declaredAll instances = objects
  valid : ValidAll d store folder [] instances

theorem Of.unique {d : Disk} {store : DefinitionStore R} {folder : Place}
    {objects : List (Object R)} {instances others : List (Instance R)}
    (h : Of d store folder objects instances) (h' : Of d store folder objects others) :
    instances = others := h.valid.unique h'.valid (h.declared.trans h'.declared.symm)

theorem expandedAll_cons_eq_ok {fps : Number R} {lead : String} {offset : Int} {i : Instance R}
    {rest : List (Instance R)} {objects : List (Object R)} :
    expandedAll fps lead offset (i :: rest) = .ok objects ↔
      ∃ o others, expanded fps lead offset i = .ok o ∧
        expandedAll fps lead offset rest = .ok others ∧ objects = o :: others := by
  simp only [expandedAll, Outcome.bind_eq_ok, Outcome.pure_eq_ok]
  constructor
  · intro h
    obtain ⟨o, ho, others, hothers, rfl⟩ := h
    exact ⟨o, others, ho, hothers, rfl⟩
  · intro h
    obtain ⟨o, others, ho, hothers, rfl⟩ := h
    exact ⟨o, ho, others, hothers, rfl⟩

theorem expanded_group_eq_ok {fps : Number R} {lead : String} {offset : Int} {b : Base R}
    {cs : List (Instance R)} {info : GroupInfo R} {e : Members R} {o : Object R} :
    expanded fps lead offset (.group b cs info e) = .ok o ↔
      ∃ start children, Time.frameOrZero fps info.start = .ok start ∧
        expandedAll fps lead (offset + start) cs = .ok children ∧
        o = .group (behind lead b) children info e := by
  simp only [expanded, Outcome.bind_eq_ok, Outcome.pure_eq_ok]
  constructor
  · intro h
    obtain ⟨start, hstart, children, hchildren, rfl⟩ := h
    exact ⟨start, children, hstart, hchildren, rfl⟩
  · intro h
    obtain ⟨start, children, hstart, hchildren, rfl⟩ := h
    exact ⟨start, hstart, children, hchildren, rfl⟩

theorem expanded_opened_eq_ok {fps : Number R} {lead : String} {offset : Int} {b : Base R}
    {r : Reference R} {e : Members R} {place : Place} {file : Expansion.Definition R}
    {cs : List (Instance R)} {o : Object R} :
    expanded fps lead offset (.opened b r e place file cs) = .ok o ↔
      ∃ start children resolved, Time.frameOrZero fps r.start = .ok start ∧
        expandedAll fps (Expansion.lead (behind lead b)) (offset + start) cs = .ok children ∧
        file.animations.mapM (Expansion.shifted (offset + start)
          (Expansion.lead (behind lead b)) fps) = .ok resolved ∧
        o = .group (behind lead b) children (standIn r place file resolved) [] := by
  simp only [expanded, Outcome.bind_eq_ok, Outcome.pure_eq_ok]
  constructor
  · intro h
    obtain ⟨start, hstart, children, hchildren, resolved, hresolved, rfl⟩ := h
    exact ⟨start, children, resolved, hstart, hchildren, hresolved, rfl⟩
  · intro h
    obtain ⟨start, children, resolved, hstart, hchildren, hresolved, rfl⟩ := h
    exact ⟨start, hstart, children, hchildren, resolved, hresolved, rfl⟩

end Instance

namespace Expansion

variable {R : Type}

theorem prefixedAll_empty (objects : List (Object R)) : prefixedAll "" objects = objects := by
  have hid (b : Base R) : { b with id := b.id.map ("" ++ ·) } = b := Instance.behind_empty b
  induction objects using Object.forest with
  | nil => rfl
  | shape b s e rest ih => rw [prefixedAll, prefixed, hid, ih]
  | reference b r e rest ih => rw [prefixedAll, prefixed, hid, ih]
  | group b cs info e rest ihChildren ihRest => rw [prefixedAll, prefixed, hid, ihChildren, ihRest]

theorem source_eq_ok {b : Base R} {r : Reference R} {src : String} (h : source b r = .ok src) :
    r.source = some src := by
  unfold source at h
  have hid : isGiven b.id = true ∨ isGiven b.id = false := Bool.eq_false_or_eq_true _
  cases hs : r.source with
  | none =>
    cases hk : r.kind <;> obtain hid | hid := hid <;>
      simp [hs, hk, hid, Outcome.bind_eq_ok] at h
  | some path =>
    by_cases hempty : path = ""
    · cases hk : r.kind <;> obtain hid | hid := hid <;>
        simp [hs, hk, hid, hempty, Outcome.bind_eq_ok] at h
    · cases hk : r.kind <;> obtain hid | hid := hid <;>
        simp [hs, hk, hid, hempty, Outcome.bind_eq_ok, -bind_pure_comp] at h <;> rw [h]

section

variable [Scalar R] {d : Disk} {fps : Number R} {c : Context} {s s' : DefinitionStore R}

/-- An expander follows references to instances. -/
def Follows (d : Disk) (fps : Number R) (onReference : Expander R) : Prop :=
  ∀ c lead b r e s o s', (onReference c (Instance.behind lead b) r).Yields s o s' →
    ∃ place file cs, (Instance.opened b r e place file cs).Valid d s c.folder c.chain ∧
      (Instance.opened b r e place file cs).expanded fps lead c.offset = .ok o ∧ s'.Within d s

/-- Expanding objects makes instances of them. -/
theorem expandTrees_yields {onReference : Expander R} (hfollows : Follows d fps onReference)
    {lead : String} {objects expanded : List (Object R)}
    (h : (expandTrees onReference fps c (prefixedAll lead objects)).Yields s expanded s') :
    ∃ instances, Instance.declaredAll instances = objects ∧
      Instance.ValidAll d s c.folder c.chain instances ∧
      Instance.expandedAll fps lead c.offset instances = .ok expanded ∧ s'.Within d s := by
  -- The store grows on the way, but what it gives later it gave before, so instances stay valid.
  induction objects using Object.forest generalizing c s expanded s' with
  | nil =>
    obtain ⟨rfl, rfl⟩ := Run.yields_pure.mp h
    exact ⟨[], rfl, trivial, rfl, .refl d s⟩
  | shape b sh e rest ih =>
    obtain ⟨first, s₁, hfirst, h⟩ := Run.yields_bind.mp h
    obtain ⟨others, s₂, hothers, h⟩ := Run.yields_bind.mp h
    obtain ⟨rfl, rfl⟩ := Run.yields_pure.mp h
    obtain ⟨rfl, rfl⟩ := Run.yields_pure.mp hfirst
    obtain ⟨is, hdeclared, hvalid, hexpanded, hwithin⟩ := ih hothers
    refine ⟨.shape b sh e :: is, ?_, ⟨trivial, hvalid⟩, ?_, hwithin⟩
    · rw [Instance.declaredAll, hdeclared]
      rfl
    · exact Instance.expandedAll_cons_eq_ok.mpr ⟨_, others, rfl, hexpanded, rfl⟩
  | reference b r e rest ih =>
    obtain ⟨first, s₁, hfirst, h⟩ := Run.yields_bind.mp h
    obtain ⟨others, s₂, hothers, h⟩ := Run.yields_bind.mp h
    obtain ⟨rfl, rfl⟩ := Run.yields_pure.mp h
    obtain ⟨place, file, cs, hvalid₁, hexpanded₁, hwithin₁⟩ := hfollows _ lead b r e _ _ _ hfirst
    obtain ⟨is, hdeclared, hvalid, hexpanded, hwithin⟩ := ih hothers
    refine ⟨.opened b r e place file cs :: is, ?_, ⟨hvalid₁, hvalid.mono hwithin₁⟩, ?_,
      hwithin.trans hwithin₁⟩
    · rw [Instance.declaredAll, hdeclared]
      rfl
    · exact Instance.expandedAll_cons_eq_ok.mpr ⟨_, others, hexpanded₁, hexpanded, rfl⟩
  | group b children info e rest ihChildren ihRest =>
    obtain ⟨first, s₁, hfirst, h⟩ := Run.yields_bind.mp h
    obtain ⟨others, s₂, hothers, h⟩ := Run.yields_bind.mp h
    obtain ⟨rfl, rfl⟩ := Run.yields_pure.mp h
    obtain ⟨start, hstart, hfirst⟩ := Run.yields_lift_bind.mp hfirst
    obtain ⟨inner, s₃, hinner, hfirst⟩ := Run.yields_bind.mp hfirst
    obtain ⟨rfl, rfl⟩ := Run.yields_pure.mp hfirst
    obtain ⟨cs, hdeclared₁, hvalid₁, hexpanded₁, hwithin₁⟩ := ihChildren hinner
    obtain ⟨is, hdeclared, hvalid, hexpanded, hwithin⟩ := ihRest hothers
    refine ⟨.group b cs info e :: is, ?_, ⟨hvalid₁, hvalid.mono hwithin₁⟩, ?_,
      hwithin.trans hwithin₁⟩
    · rw [Instance.declaredAll, Instance.declared, hdeclared₁, hdeclared]
    · refine Instance.expandedAll_cons_eq_ok.mpr ⟨_, others, ?_, hexpanded, rfl⟩
      exact Instance.expanded_group_eq_ok.mpr ⟨start, inner, hstart, hexpanded₁, rfl⟩

/-- References are followed at every depth. -/
theorem follows_expandReference (depth : Nat) :
    Follows d fps (expandReference d fps depth : Expander R) := by
  induction depth with
  | zero =>
    intro c lead b r e s o s' h
    exact (Run.yields_throw.mp h).elim
  | succ depth ih =>
    intro c lead b r e s o s' h
    obtain ⟨src, hsrc, h⟩ := Run.yields_lift_bind.mp h
    obtain ⟨place, s₁, hplace, h⟩ := Run.yields_bind.mp h
    obtain ⟨hlocate, rfl⟩ := Run.yields_ofDisk.mp hplace
    dsimp only at h
    by_cases hchain : c.chain.contains place = true
    · rw [if_pos hchain] at h
      obtain ⟨_, _, h, -⟩ := Run.yields_bind.mp h
      exact (Run.yields_throw.mp h).elim
    rw [if_neg hchain] at h
    obtain ⟨payload, s₂, hload, h⟩ := Run.yields_bind.mp h
    obtain ⟨hgives, hwithin₁⟩ := DefinitionStore.load_yields hload
    obtain ⟨file, hdefine, h⟩ := Run.yields_lift_bind.mp h
    obtain ⟨start, hstart, h⟩ := Run.yields_lift_bind.mp h
    obtain ⟨children, s₃, hchildren, h⟩ := Run.yields_bind.mp h
    obtain ⟨resolved, hresolved, h⟩ := Run.yields_lift_bind.mp h
    obtain ⟨rfl, rfl⟩ := Run.yields_pure.mp h
    have hobjects : (if Expansion.lead (Instance.behind lead b) == "" then file.objects
        else prefixedAll (Expansion.lead (Instance.behind lead b)) file.objects) =
        prefixedAll (Expansion.lead (Instance.behind lead b)) file.objects := by
      split
      · rename_i hempty
        rw [eq_of_beq hempty, prefixedAll_empty]
      · rfl
    rw [hobjects] at hchildren
    obtain ⟨cs, hdeclared, hvalid, hexpanded, hwithin⟩ := expandTrees_yields ih hchildren
    refine ⟨place, file, cs, ⟨⟨src, source_eq_ok hsrc, hlocate⟩, by simpa using hchain,
      ⟨payload, hgives, hdefine⟩, hdeclared, hvalid.mono hwithin₁⟩, ?_, hwithin.trans hwithin₁⟩
    exact Instance.expanded_opened_eq_ok.mpr
      ⟨start, children, resolved, hstart, hexpanded, hresolved, rfl⟩

/-- An expanded tree is made of the instances of the tree that is declared. -/
theorem expandObjects_yields {folder : Place} {objects expanded : List (Object R)}
    (h : (expandObjects d fps ⟨folder, 0, []⟩ objects).Yields s expanded s') :
    ∃ instances, Instance.Of d s folder objects instances ∧
      Instance.expandedAll fps "" 0 instances = .ok expanded := by
  rw [expandObjects, Run.yields_get_bind] at h
  rw [← prefixedAll_empty objects] at h
  obtain ⟨is, hdeclared, hvalid, hexpanded, -⟩ := expandTrees_yields
    (follows_expandReference _) h
  exact ⟨is, ⟨hdeclared, hvalid⟩, hexpanded⟩

theorem expandObjects_of {folder : Place} {objects expanded : List (Object R)}
    {instances : List (Instance R)} (hof : Instance.Of d s folder objects instances)
    (h : (expandObjects d fps ⟨folder, 0, []⟩ objects).Yields s expanded s') :
    Instance.expandedAll fps "" 0 instances = .ok expanded := by
  obtain ⟨is, hof', hexpanded⟩ := expandObjects_yields h
  rwa [hof.unique hof']

end

end Expansion

end Storyboard
