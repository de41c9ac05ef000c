import Storyboard.Proofs.Compilation
import Storyboard.Proofs.Expansion.Following
import Storyboard.Proofs.Expansion.Passage
import Storyboard.Proofs.Flattening.Collision
import Storyboard.Proofs.Names

namespace Storyboard

open Flattening

variable {R : Type}

namespace Instance

/-- A base whose name, if it has one, is not empty and has no dots. -/
def PlainBase (b : Base R) : Prop := ∀ x ∈ b.id, x ≠ "" ∧ Undotted x

mutual

/-- Instances with plain names, none of them marked as a file's. -/
def Plain : Instance R → Prop
  | .shape b _ _ => PlainBase b
  | .group b cs info _ => PlainBase b ∧ info.expandedFrom = none ∧ PlainAll cs
  | .opened b _ _ _ _ cs => PlainBase b ∧ PlainAll cs

def PlainAll : List (Instance R) → Prop
  | [] => True
  | i :: rest => Plain i ∧ PlainAll rest

end

instance (b : Base R) : Decidable (PlainBase b) :=
  inferInstanceAs (Decidable (∀ x ∈ b.id, x ≠ "" ∧ Undotted x))

mutual

def decidePlain : (i : Instance R) → Decidable i.Plain
  | .shape b _ _ => inferInstanceAs (Decidable (PlainBase b))
  | .group b cs info _ =>
    have := decidePlainAll cs
    inferInstanceAs (Decidable (PlainBase b ∧ info.expandedFrom = none ∧ PlainAll cs))
  | .opened b _ _ _ _ cs =>
    have := decidePlainAll cs
    inferInstanceAs (Decidable (PlainBase b ∧ PlainAll cs))

def decidePlainAll : (instances : List (Instance R)) → Decidable (PlainAll instances)
  | [] => inferInstanceAs (Decidable True)
  | i :: rest =>
    have := decidePlain i
    have := decidePlainAll rest
    inferInstanceAs (Decidable (Plain i ∧ PlainAll rest))

end

instance (instances : List (Instance R)) : Decidable (PlainAll instances) :=
  decidePlainAll instances

/-- The names on the way down to an object, its own last, joined with dots. -/
def pathOf (above : List String) (id : Option String) : Option String :=
  id.map fun x => ".".intercalate (above ++ [x])

mutual

/-- The paths of an instance and of all that it holds, groups before their children. What has no id
has no path, and adds nothing to the paths of its children. -/
def paths (above : List String) : Instance R → List (Option String)
  | .shape b _ _ => [pathOf above b.id]
  | .group b cs _ _ => pathOf above b.id :: pathsAll (above ++ b.id.toList) cs
  | .opened b _ _ _ _ cs => pathOf above b.id :: pathsAll (above ++ b.id.toList) cs

def pathsAll (above : List String) : List (Instance R) → List (Option String)
  | [] => []
  | i :: rest => paths above i ++ pathsAll above rest

end

theorem plain_base {i : Instance R} (h : i.Plain) : PlainBase i.base := by
  cases i with
  | shape b s e => exact h
  | group b cs info e => exact h.1
  | opened b r e place file cs => exact h.1

theorem plainAll_children {i : Instance R} (h : i.Plain) : PlainAll i.children := by
  cases i with
  | shape b s e => trivial
  | group b cs info e => exact h.2.2
  | opened b r e place file cs => exact h.2

theorem plain_of_mem {instances : List (Instance R)} {i : Instance R} (h : PlainAll instances)
    (hi : i ∈ instances) : i.Plain := by
  induction instances with
  | nil => simp at hi
  | cons x rest ih =>
    rcases List.mem_cons.mp hi with rfl | hi
    · exact h.1
    · exact ih h.2 hi

theorem plain_of_way {instances way : List (Instance R)} {p : List Nat} {i : Instance R}
    (h : PlainAll instances) (hw : Instance.way instances p = some way) (hi : i ∈ way) :
    i.Plain := by
  induction p generalizing instances way with
  | nil =>
    cases hw
    simp at hi
  | cons j p ih =>
    obtain ⟨x, rest, hx, hrest, rfl⟩ := (wayDown_cons_eq_some _).mp hw
    have hplain := plain_of_mem h (List.mem_of_getElem? hx)
    rcases List.mem_cons.mp hi with rfl | hi
    · exact hplain
    · exact ih (plainAll_children hplain) hrest hi

end Instance

/-- A level of a flattened tree below some names. The prefix that expansion has put in front of the
ids on it is the one that flattening takes away, or there is none. -/
structure Aligned (l : Level) (lead : String) (above : List String) : Prop where
  path : l.path = ".".intercalate above
  given : ∀ x ∈ above, x ≠ ""
  lead : lead = l.lead ∨ lead = ""
  dotted : Dotted l.lead

namespace Aligned

variable {l : Level} {lead : String} {above : List String}

theorem root : Aligned Level.root "" [] where
  path := rfl
  given := by simp
  lead := .inl rfl
  dotted := .inl rfl

/-- Prefixing and stripping cancel. -/
theorem fullId (h : Aligned l lead above) {b : Base R}
    (hb : Instance.PlainBase b) :
    l.fullId (Instance.behind lead b).id = Instance.pathOf above b.id := by
  cases hid : b.id with
  | none => simp [hid, Instance.pathOf]
  | some x =>
    have hjoin := Address.join_intercalate h.given x
    simp [hid, Instance.pathOf, localId_put h.dotted h.lead (hb x hid).2, h.path, hjoin]

theorem given_append (h : Aligned l lead above) {b : Base R}
    (hb : Instance.PlainBase b) : ∀ x ∈ above ++ b.id.toList, x ≠ "" := by
  intro x hx
  rcases List.mem_append.mp hx with hx | hx
  · exact h.given x hx
  · exact (hb x (Option.mem_toList.mp hx)).1

theorem innerPath (h : Aligned l lead above) {b : Base R}
    (hb : Instance.PlainBase b) :
    innerPath l.path (Instance.pathOf above b.id) = ".".intercalate (above ++ b.id.toList) := by
  cases hid : b.id with
  | none => simpa [hid, Instance.pathOf, Flattening.innerPath] using h.path
  | some x =>
    have hall := h.given_append hb
    rw [hid] at hall
    have hne := Address.intercalate_ne_empty (by simp) hall
    simpa [Instance.pathOf] using innerPath_of_ne hne

/-- Inside a group the prefix stays what it is. -/
theorem inside_group (h : Aligned l lead above) {b : Base R} {info : GroupInfo R}
    (children : List (Object R)) (e : Members R) (hb : Instance.PlainBase b)
    (hinfo : info.expandedFrom = none) :
    Aligned (l.inside (.group (Instance.behind lead b) children info e)) lead
      (above ++ b.id.toList) := by
  have hlead : innerNamespace l.lead (Instance.behind lead b) info = l.lead := by
    rw [innerNamespace_eq, hinfo]
    rfl
  refine ⟨?_, h.given_append hb, ?_, ?_⟩
  · rw [Level.inside, h.fullId hb, h.innerPath hb]
  · rw [Level.inside, hlead]
    exact h.lead
  · rw [Level.inside, hlead]
    exact h.dotted

/-- Inside a file with a name the prefix is that of the name. Inside a file without one there is no
prefix, while flattening still expects that of the level around it. -/
theorem inside_opened (h : Aligned l lead above) {b : Base R} (children : List (Object R))
    (r : Reference R) (place : Place) (file : Expansion.Definition R) (resolved : List (Entry R))
    (hb : Instance.PlainBase b) :
    Aligned (l.inside (.group (Instance.behind lead b) children
      (Instance.standIn r place file resolved) [])) (Expansion.lead (Instance.behind lead b))
      (above ++ b.id.toList) := by
  have hlead : innerNamespace l.lead (Instance.behind lead b)
      (Instance.standIn r place file resolved) =
      if Expansion.isGiven (Instance.behind lead b).id then
        (Instance.behind lead b).id.getD "" ++ "." else l.lead := by
    rw [innerNamespace_eq, Instance.standIn, Place.isGiven_text, Bool.true_and]
  refine ⟨?_, h.given_append hb, ?_, ?_⟩
  · rw [Level.inside, h.fullId hb, h.innerPath hb]
  · rw [Level.inside, hlead, Expansion.lead]
    split
    · exact .inl rfl
    · exact .inr rfl
  · rw [Level.inside, hlead]
    split
    · exact dotted_append _
    · exact h.dotted

/-- On a way down the names of what is passed come after those around it. -/
theorem passes {x : Instance.Prefixes} {front : List (Instance R)} {way : List (Object R)}
    (hpasses : Instance.Passes x front way) (h : Aligned l x.put above)
    (hplain : ∀ i ∈ front, i.Plain) :
    Aligned (way.foldl Level.inside l) (front.foldl Instance.Prefixes.inside x).put
      (above ++ Instance.names front) := by
  induction hpasses generalizing l above with
  | nil x => simpa [Instance.names] using h
  | @group x b cs info e front way children hpasses ih =>
    have hi := hplain _ List.mem_cons_self
    have hinner := ih (h.inside_group children e hi.1 hi.2.1)
      fun i hi => hplain i (List.mem_cons_of_mem _ hi)
    rw [List.append_assoc] at hinner
    exact hinner
  | @opened x b r e place file cs front way children resolved hpasses ih =>
    have hi := hplain _ List.mem_cons_self
    have hinner := ih (h.inside_opened children r place file resolved hi.1)
      fun i hi => hplain i (List.mem_cons_of_mem _ hi)
    rw [List.append_assoc] at hinner
    exact hinner

end Aligned

/-- Below some names, expansion and flattening give every object its names joined with dots. -/
theorem fullIdsAll_expandedAll [Scalar R] {fps : Number R} {l : Level} {lead : String}
    {above : List String} {offset : Int} {instances : List (Instance R)}
    {expanded : List (Object R)} (hl : Aligned l lead above) (hplain : Instance.PlainAll instances)
    (h : Instance.expandedAll fps lead offset instances = .ok expanded) :
    fullIdsAll l expanded = Instance.pathsAll above instances := by
  induction instances using Instance.forest generalizing l lead above offset expanded with
  | nil =>
    cases h
    rfl
  | shape b s e rest ih =>
    obtain ⟨o, others, ho, hothers, rfl⟩ := Instance.expandedAll_cons_eq_ok.mp h
    cases ho
    rw [fullIdsAll, fullIds, hl.fullId hplain.1, ih hl hplain.2 hothers]
    rfl
  | group b cs info e rest ihChildren ihRest =>
    obtain ⟨⟨hb, hinfo, hcs⟩, hrest⟩ := hplain
    obtain ⟨o, others, ho, hothers, rfl⟩ := Instance.expandedAll_cons_eq_ok.mp h
    obtain ⟨start, children, -, hchildren, rfl⟩ := Instance.expanded_group_eq_ok.mp ho
    have hinner := ihChildren (hl.inside_group children e hb hinfo) hcs hchildren
    rw [fullIdsAll, fullIds, hl.fullId hb, hinner, ihRest hl hrest hothers]
    rfl
  | opened b r e place file cs rest ihChildren ihRest =>
    obtain ⟨⟨hb, hcs⟩, hrest⟩ := hplain
    obtain ⟨o, others, ho, hothers, rfl⟩ := Instance.expandedAll_cons_eq_ok.mp h
    obtain ⟨start, children, resolved, -, hchildren, -, rfl⟩ := Instance.expanded_opened_eq_ok.mp ho
    have hinner := ihChildren (hl.inside_opened children r place file resolved hb) hcs hchildren
    rw [fullIdsAll, fullIds, hl.fullId hb, hinner, ihRest hl hrest hothers]
    rfl

/-- At the position of an instance stands an object whose id is the path of the instance. -/
theorem way_compiled [Scalar R] {fps : Number R} {instances front : List (Instance R)}
    {expanded flat out : List (Object R)} {root : TimeScope R} {settings : Settings R}
    {measurer : Measurer R} {p : List Nat} {i : Instance R}
    (hplain : Instance.PlainAll instances)
    (hexpanded : Instance.expandedAll fps "" 0 instances = .ok expanded)
    (hflat : absoluteAll fps Level.root root expanded = .ok flat)
    (hclips : Object.resolveAllClips settings measurer flat = .ok out)
    (hw : Instance.way instances p = some (front ++ [i])) :
    ∃ way o, Object.way out p = some (way ++ [o]) ∧
      o.id = Instance.pathOf (Instance.names front) i.base.id := by
  obtain ⟨before, start, o, hpasses, hbefore, ho⟩ :=
    Instance.expandedAll_at (x := ⟨"", ""⟩) hexpanded hw
  obtain ⟨after, c, own, hafter, -, hc⟩ := absoluteAll_at hflat hbefore
  obtain ⟨last, hlast, hresolved⟩ := Object.way_resolveAllClips hclips hafter
  obtain ⟨way, o', rfl, -, hresolve⟩ := forall₂_concat_left hresolved
  have hfront : ∀ j ∈ front, j.Plain := by
    intro j hj
    exact Instance.plain_of_way hplain hw (List.mem_append_left _ hj)
  have hi : i.Plain := Instance.plain_of_way hplain hw (by simp)
  have haligned := Aligned.root.passes hpasses hfront
  refine ⟨way, o', hlast, ?_⟩
  rw [(Object.resolveClips_alike hresolve).1.id, absolute_id hc, Instance.expanded_id ho]
  exact haligned.fullId (Instance.plain_base hi)

/-- A document that compiles has instances. If their names are plain, every compiled object has the
names on the way down to it as its id, joined with dots, and no two objects have the same; and a
path is refused only if two objects would have it. -/
theorem compile_ids [Scalar R] (s : Studio R) (folder : Place) (doc : Document R) (c : Catalog R) :
    (∀ timeline c', (s.compile folder doc).Yields c timeline c' →
      ∃ instances, Instance.Of s.disk c.definitions folder doc.objects instances) ∧
    ∀ instances, Instance.Of s.disk c.definitions folder doc.objects instances →
      Instance.PlainAll instances →
      (∀ timeline c', (s.compile folder doc).Yields c timeline c' →
        (∀ p front i, Instance.way instances p = some (front ++ [i]) →
          ∃ way o, Object.way timeline.objects p = some (way ++ [o]) ∧
            o.id = Instance.pathOf (Instance.names front) i.base.id) ∧
          (Address.walk timeline.objects).map Object.id = Instance.pathsAll [] instances ∧
          (Address.ids timeline.objects).Nodup) ∧
      ∀ expanded definitions p,
        (Expansion.expandObjects s.disk (.real doc.project.fps) ⟨folder, 0, []⟩ doc.objects).Yields
          c.definitions expanded definitions →
        (flatten s.disk (.real doc.project.fps) expanded doc.animations
          (doc.speed.map .real)).Fails c.effects (.duplicatePath p) →
        2 ≤ (Instance.pathsAll [] instances).count (some p) := by
  refine ⟨?_, ?_⟩
  · intro timeline c' h
    obtain ⟨expanded, flat, tracks, hstages, -⟩ := Studio.compile_yields.mp h
    obtain ⟨instances, hof, -⟩ := Expansion.expandObjects_yields hstages.expands
    exact ⟨instances, hof⟩
  · intro instances hof hplain
    refine ⟨?_, ?_⟩
    · intro timeline c' h
      obtain ⟨expanded, flat, tracks, hstages, -⟩ := Studio.compile_yields.mp h
      have hexpanded := Expansion.expandObjects_of hof hstages.expands
      obtain ⟨hflat, hnodup, -⟩ := flatten_yields hstages.flattens
      obtain ⟨hclips, -⟩ := resolveClipLengths_eq_ok hstages.clips
      refine ⟨fun p front i hw => way_compiled hplain hexpanded hflat hclips hw, ?_, ?_⟩
      · rw [Object.walk_ids_resolveAllClips hclips, walk_absoluteAll hflat,
          fullIdsAll_expandedAll .root hplain hexpanded]
      · rw [Object.ids_resolveAllClips hclips]
        exact hnodup
    · intro expanded definitions p hexp hfails
      have hexpanded := Expansion.expandObjects_of hof hexp
      have hcount := flatten_collides hfails
      rwa [fullIdsAll_expandedAll .root hplain hexpanded] at hcount

theorem nested_ids :
    ∃ (instances : List (Instance Rat)) (timeline : Timeline Rat) (c' : Catalog Rat),
      (bareStudio.compile ⟨[]⟩ (nestedDocument "c")).Yields ⟨nestedFiles, ⟨[], []⟩⟩ timeline c' ∧
      (Address.walk timeline.objects).map Object.id = Instance.pathsAll [] instances ∧
      Instance.pathsAll [] instances =
        [some "c", none, some "c.c", some "c.c.x", some "c.x"] := by
  have hok : ((bareStudio.compile ⟨[]⟩ (nestedDocument "c")).exec
      ⟨nestedFiles, ⟨[], []⟩⟩).1.toOption.any (fun _ => true) = true := by
    decide +kernel
  have hplain : (Instance.ofDocument bareStudio.disk nestedFiles 2 ⟨[]⟩
      (nestedDocument "c").objects).any (fun is => decide (Instance.PlainAll is ∧
        Instance.pathsAll [] is = [some "c", none, some "c.c", some "c.c.x", some "c.x"])) =
        true := by
    decide +kernel
  obtain ⟨timeline, c', hrun, -⟩ := Run.yields_of_test _ hok
  obtain ⟨instances, hinstances, htest⟩ := (Option.any_eq_true _ _).mp hplain
  obtain ⟨hall, hpaths⟩ := of_decide_eq_true htest
  have hof := Instance.of_ofDocument hinstances
  obtain ⟨-, hids, -⟩ := ((compile_ids bareStudio ⟨[]⟩ (nestedDocument "c")
    ⟨nestedFiles, ⟨[], []⟩⟩).2 instances hof hall).1 timeline c' hrun
  exact ⟨instances, timeline, c', hrun, hids, hpaths⟩

end Storyboard
