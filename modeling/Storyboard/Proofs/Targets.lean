import Storyboard.Proofs.Compilation
import Storyboard.Proofs.Expansion.Following
import Storyboard.Proofs.Flattening.Qualification
import Storyboard.Proofs.Flattening.Target
import Storyboard.Proofs.Keyframes

namespace Storyboard

open Flattening

variable {R : Type} [Scalar R]

section

variable {fps : Number R} {x : Instance.Prefixes} {offset : Int} {cs : List (Instance R)}
  {expanded level : List (Object R)} {l : Level} {own : TimeScope R}

/-- An object of a file stands in a compiled level, where the names on the way to it lead, unless a
group on the way is marked as another file's. -/
theorem stands_in_level (hexpanded : Instance.expandedAll fps x.put offset cs = .ok expanded)
    (hlevel : absoluteAll fps l own expanded = .ok level) (hids : (Address.ids level).Nodup)
    (hl : l.lead = x.taken) (hregular : l.Regular) (hput : x.put = l.lead ∨ x.put = "")
    {q : List Nat} {inner : List (Object R)} {o : Object R} {target : String}
    (hw : Object.way (Instance.declaredAll cs) q = some (inner ++ [o])) (hid : o.id.isSome)
    (hnames : (inner ++ [o]).filterMap Object.id = Address.segments target) :
    ∃ way c id, Object.way level q = some (way ++ [c]) ∧ c.id = some id ∧
      ((∀ g ∈ inner, Expansion.isGiven g.groupInfo.expandedFrom = false) →
        Address.find level target l.path = some c) := by
  obtain ⟨is, his, hmap⟩ := Instance.declaredAll_at hw
  obtain ⟨front, i, rfl, rfl, rfl⟩ := concat_of_map_eq hmap.symm
  obtain ⟨between, start, e, hpasses, hbetween, he⟩ := Instance.expandedAll_at hexpanded his
  obtain ⟨way, c, own', hway, -, hc⟩ := absoluteAll_at hlevel hbetween
  obtain ⟨way', hway', halong⟩ := way_absoluteAll hlevel hbetween
  obtain rfl : way ++ [c] = way' := Option.some.inj (hway.symm.trans hway')
  obtain ⟨raw, hraw⟩ := Option.isSome_iff_exists.mp hid
  obtain ⟨id, hcid⟩ : ∃ id, c.id = some id := by
    rw [absolute_id hc, Instance.expanded_id he, Instance.behind_id, ← Instance.id_declared, hraw]
    exact ⟨_, rfl⟩
  refine ⟨way, c, id, hway, hcid, fun hunmarked => ?_⟩
  have hnames' : Instance.names (front ++ [i]) = Address.segments target := by
    rw [← hnames, ← List.map_singleton, ← List.map_append, Instance.filterMap_id_declared]
  have hown : ∀ j ∈ front, j.declared.children ≠ [] ∧
      Expansion.isGiven j.declared.groupInfo.expandedFrom = false := by
    intro j hj
    have hj' := List.mem_map_of_mem (f := Instance.declared) hj
    exact ⟨below_ne_nil_of_wayDown _ hw hj', hunmarked _ hj'⟩
  have htrail := idsAlong_trail hpasses hl hregular.dotted hput hown (Instance.expanded_id he)
    fun s hs => Address.undotted_of_mem_segments (hnames' ▸ hs)
  -- The ids on the way down to the copy are what following the target passes.
  refine Address.follow_of_way hids hway (by rw [hcid]; rfl) ?_
  rw [← hnames', ← htrail, ← halong, List.reduceOption, List.filterMap_map]
  rfl

/-- Whether a target leads to an object of a file in a compiled level depends on the level alone. -/
theorem target_reaches (hexpanded : Instance.expandedAll fps x.put offset cs = .ok expanded)
    (hlevel : absoluteAll fps l own expanded = .ok level) (hids : (Address.ids level).Nodup)
    (hl : l.lead = x.taken) (hregular : l.Regular) (hput : x.put = l.lead ∨ x.put = "")
    {q : List Nat} {inner : List (Object R)} {o : Object R} {target : String}
    (hw : Object.way (Instance.declaredAll cs) q = some (inner ++ [o])) (hid : o.id.isSome)
    (hnames : (inner ++ [o]).filterMap Object.id = Address.segments target) :
    ∃ way c id, Object.way level q = some (way ++ [c]) ∧ c.id = some id ∧
      (∀ found, resolveTarget (localId l.lead (x.put ++ target)) level l.path = .ok found →
        (targetId found = id ↔ Reaches level l.path (localId l.lead (x.put ++ target)) id)) ∧
      ((∀ g ∈ inner, Expansion.isGiven g.groupInfo.expandedFrom = false) →
        (Reaches level l.path (localId l.lead (x.put ++ target)) id ↔
          x.put ≠ "" ∨ ¬ Misleads level l.path l.lead target)) := by
  obtain ⟨way, c, id, hway, hcid, hnamed⟩ :=
    stands_in_level hexpanded hlevel hids hl hregular hput hw hid hnames
  refine ⟨way, c, id, hway, hcid, ?_, ?_⟩
  · intro found hfound
    have hmem : c ∈ Address.walk level := Address.mem_walk_of_way hway (by simp)
    obtain ⟨k, hk⟩ := id_of_resolveTarget hfound
    rw [← resolveTarget_reaches hfound hmem hcid, targetId, hk]
    simp
  · intro hunmarked
    have hfind := hnamed hunmarked
    by_cases hempty : x.put = ""
    · rw [hempty, String.empty_append,
        reaches_localId hregular.dotted hregular.placed hfind hcid]
      simp
    · have hlead : x.put = l.lead := hput.resolve_right hempty
      rw [hlead, localId_append, Reaches, hfind]
      exact iff_of_true hcid (.inl (hlead ▸ hempty))

end

/-- The path of what is inside the last object of a compiled way down. -/
def scopeOf (way : List (Object R)) : String := (way.map Object.id).foldl innerPath ""

/-- Expansion makes a group of an instance of a file, with what is in the file behind its prefix. -/
theorem Instance.expandedAll_opened {fps : Number R} {instances front cs : List (Instance R)}
    {expanded : List (Object R)} {p : List Nat} {b : Base R} {r : Reference R} {e : Members R}
    {place : Place} {file : Expansion.Definition R}
    (hexpanded : Instance.expandedAll fps "" 0 instances = .ok expanded)
    (hw : Instance.way instances p = some (front ++ [.opened b r e place file cs])) :
    let x := Instance.Prefixes.along (front ++ [.opened b r e place file cs])
    ∃ before offset b' children info extra,
      Object.way expanded p = some (before ++ [.group b' children info extra]) ∧
      Instance.expandedAll fps x.put offset cs = .ok children ∧
      file.animations.mapM (Expansion.shifted offset x.put fps) = .ok info.resolved ∧
      Instance.Passes ⟨"", ""⟩ (front ++ [.opened b r e place file cs])
        (before ++ [.group b' children info extra]) := by
  intro x
  obtain ⟨before, offset, o, hpasses, hbefore, ho⟩ :=
    Instance.expandedAll_at (x := ⟨"", ""⟩) hexpanded hw
  obtain ⟨start, children, resolved, -, hchildren, hresolved, rfl⟩ :=
    Instance.expanded_opened_eq_ok.mp ho
  have hx : x = (Instance.Prefixes.along front).inside (.opened b r e place file cs) :=
    Instance.Prefixes.along_concat _ _
  have hput : x.put = Expansion.lead (Instance.behind (Instance.Prefixes.along front).put b) := by
    rw [hx]
    rfl
  refine ⟨before, offset + start, _, children, _, _, hbefore, ?_, ?_,
    hpasses.append (.opened children resolved (.nil _))⟩
  · rw [hput]
    exact hchildren
  · rw [hput]
    exact hresolved

/-- The children of a group are compiled as a level of their own. They have distinct ids if all
objects do, and the group stands at its position in the timeline. -/
theorem level_at {fps : Number R} {root : TimeScope R} {settings : Settings R}
    {measurer : Measurer R} {objects flat out before children : List (Object R)} {p : List Nat}
    {b : Base R} {info : GroupInfo R} {e : Members R}
    (hflat : absoluteAll fps Level.root root objects = .ok flat)
    (hids : (Address.ids flat).Nodup)
    (hclips : Object.resolveAllClips settings measurer flat = .ok out)
    (hbefore : Object.way objects p = some (before ++ [.group b children info e])) :
    ∃ own level way group,
      TimeScope.along fps root (before ++ [.group b children info e]) = .ok own ∧
      absoluteAll fps (Level.along (before ++ [.group b children info e])) own children =
        .ok level ∧
      (Address.ids level).Nodup ∧ Object.way out p = some (way ++ [group]) ∧
      Object.resolveAllClips settings measurer level = .ok group.children ∧
      (way ++ [group]).map Object.id =
        Level.root.idsAlong (before ++ [.group b children info e]) := by
  obtain ⟨way', c, outer, hc, houter, habs⟩ := absoluteAll_at hflat hbefore
  obtain ⟨ids, hways, halong⟩ := way_absoluteAll hflat hbefore
  obtain rfl : way' ++ [c] = ids := Option.some.inj (hc.symm.trans hways)
  obtain ⟨last, hlast, hclipped⟩ := Object.way_resolveAllClips hclips hc
  obtain ⟨way, group, rfl, -, hgroup⟩ := forall₂_concat_left hclipped
  obtain ⟨own, level, duration, hown, hlevel, -, rfl⟩ := absolute_group_eq_ok.mp habs
  refine ⟨own, level, way, group, ?_, ?_, ?_, hlast, (Object.resolveClips_alike hgroup).2, ?_⟩
  · rw [TimeScope.along_concat_eq_ok]
    exact ⟨outer, houter, hown⟩
  · rw [Level.along_concat]
    exact hlevel
  · have hpart := Address.walk_opened_sublist hc
    rw [opened_append_singleton] at hpart
    exact hids.sublist (hpart.filterMap _)
  · have halike := hclipped.imp fun _ _ h => (Object.resolveClips_alike h).1
    rw [← halong, Object.map_id_of_alike halike]

/-- The group that stands for a file in a timeline holds the level that is compiled from the file,
and distinct ids. -/
theorem opened_level {fps : Number R} {root : TimeScope R} {settings : Settings R}
    {measurer : Measurer R} {instances front cs : List (Instance R)}
    {expanded flat out : List (Object R)} {p : List Nat} {b : Base R} {r : Reference R}
    {e : Members R} {place : Place} {file : Expansion.Definition R}
    (hexpanded : Instance.expandedAll fps "" 0 instances = .ok expanded)
    (hflat : absoluteAll fps Level.root root expanded = .ok flat)
    (hids : (Address.ids flat).Nodup)
    (hclips : Object.resolveAllClips settings measurer flat = .ok out)
    (hw : Instance.way instances p = some (front ++ [.opened b r e place file cs])) :
    let x := Instance.Prefixes.along (front ++ [.opened b r e place file cs])
    ∃ before o offset own level way group, Object.way expanded p = some (before ++ [o]) ∧
      TimeScope.along fps root (before ++ [o]) = .ok own ∧
      Instance.expandedAll fps x.put offset cs = .ok o.children ∧
      file.animations.mapM (Expansion.shifted offset x.put fps) = .ok o.groupInfo.resolved ∧
      absoluteAll fps (Level.along (before ++ [o])) own o.children = .ok level ∧
      (Address.ids level).Nodup ∧
      Object.way out p = some (way ++ [group]) ∧
      Object.resolveAllClips settings measurer level = .ok group.children ∧
      (Level.along (before ++ [o])).lead = x.taken ∧
      (Level.along (before ++ [o])).path = scopeOf (way ++ [group]) := by
  intro x
  obtain ⟨before, offset, b', children, info, extra, hbefore, hchildren, hresolved, hpasses⟩ :=
    Instance.expandedAll_opened hexpanded hw
  obtain ⟨own, level, way, group, hown, hlevel, hdistinct, hlast, hclipped, hways⟩ :=
    level_at hflat hids hclips hbefore
  refine ⟨before, _, offset, own, level, way, group, hbefore, hown, hchildren, hresolved, hlevel,
    hdistinct, hlast, hclipped, hpasses.lead rfl, ?_⟩
  rw [scopeOf, hways]
  exact hpasses.path.symm

namespace Instance

/-- The file that an instance opens. -/
def file? : Instance R → Option (Expansion.Definition R)
  | .opened _ _ _ _ file _ => some file
  | _ => none

/-- An animation of the file of an instance, as a source of tracks. -/
structure Animates (fps : Number R) (instances front : List (Instance R)) (i : Instance R)
    (src : Source R) (entry : Entry R) : Prop where
  way : Instance.way instances src.position = some (front ++ [i])
  declared : ∃ file, i.file? = some file ∧ entry ∈ file.animations
  cause : ∃ offset e, Expansion.shifted offset (Prefixes.along (front ++ [i])).put fps entry =
    .ok e ∧ src.cause = .resolved e

/-- A path that names an object of the file of an instance, through the ids of the file's own
objects. -/
structure Names (i : Instance R) (path : String) (q : List Nat) (inner : List (Object R))
    (o : Object R) : Prop where
  way : ∃ file, i.file? = some file ∧ Object.way file.objects q = some (inner ++ [o])
  named : o.id.isSome
  segments : (inner ++ [o]).filterMap Object.id = Address.segments path

end Instance

/-- The tracks of an animation of a file that stands at a position with some prefixes around. They
have the copy of an object as their target exactly if looking up the target in the group of the file
leads to it; and unless a group on the way is marked as another file's, that is so exactly if
flattening takes away no more than expansion has put there, or what stays leads nowhere. -/
def Aims (objects : List (Object R)) (x : Instance.Prefixes) (p q : List Nat)
    (inner : List (Object R)) (target : String) (out : List (Track R)) : Prop :=
  ∃ way group copyWay copy id, Object.way objects p = some (way ++ [group]) ∧
    Object.way objects (p ++ q) = some (copyWay ++ [copy]) ∧ copy.id = some id ∧
    ((∀ t ∈ out, t.target = id) ↔ out = [] ∨ Reaches group.children (scopeOf (way ++ [group]))
      (localId x.taken (x.put ++ target)) id) ∧
    ((∀ g ∈ inner, Expansion.isGiven g.groupInfo.expandedFrom = false) →
      (Reaches group.children (scopeOf (way ++ [group])) (localId x.taken (x.put ++ target)) id ↔
        x.put ≠ "" ∨
          ¬ Misleads group.children (scopeOf (way ++ [group])) x.taken target))

theorem shifted_target {offset : Int} {lead : String} {fps : Number R} {entry e : Entry R}
    (h : Expansion.shifted offset lead fps entry = .ok e) : e.target = lead ++ entry.target := by
  cases entry with
  | effect use =>
    obtain ⟨start, -, h⟩ := Outcome.bind_eq_ok.mp h
    cases h
    rfl
  | track t =>
    obtain ⟨keyframes, -, h⟩ := Outcome.bind_eq_ok.mp h
    cases h
    rfl

omit [Scalar R] in
theorem withoutLead_target (lead : String) (e : Entry R) :
    (withoutLead lead e).target = localId lead e.target := by
  cases e <;> rfl

/-- All tracks of an animation have the object that its target leads to as their target. -/
theorem Flattening.EmitsEntry.targets {d : Disk} {library : EffectLibrary R} {fps : Number R}
    {objects : List (Object R)} {path : String} {frames : FrameMap R} {entry : Entry R}
    {out : List (Track R)} (h : EmitsEntry d library fps objects path frames entry out) :
    ∃ found, resolveTarget entry.target objects path = .ok found ∧
      ∀ t ∈ out, t.target = targetId found := by
  obtain ⟨found, hfound, h⟩ := h
  refine ⟨found, hfound, ?_⟩
  cases entry with
  | effect use =>
    obtain ⟨start, -, effect, tracks, -, htracks, hall⟩ := h
    obtain ⟨duration, -, hproperties⟩ := EffectUse.tracksOf_eq_ok htracks
    intro t' ht'
    obtain ⟨t, ht, keyframes, -, rfl⟩ := exists_related_of_mem hall ht'
    obtain ⟨p, -, htarget, -, -⟩ := exists_related_of_mem hproperties ht
    exact htarget
  | track t =>
    obtain ⟨keyframes, -, rfl⟩ := h
    intro t' ht'
    obtain rfl := List.mem_singleton.mp ht'
    rfl

omit [Scalar R] in
/-- Tracks that share a target have another one only if there are none. -/
theorem targets_eq_iff {tracks : List (Track R)} {shared id : String}
    (h : ∀ t ∈ tracks, t.target = shared) :
    (∀ t ∈ tracks, t.target = id) ↔ tracks = [] ∨ shared = id := by
  constructor
  · intro hid
    cases tracks with
    | nil => exact .inl rfl
    | cons t rest =>
      refine .inr ?_
      rw [← h t List.mem_cons_self, hid t List.mem_cons_self]
  · intro hcase t ht
    rcases hcase with rfl | rfl
    · simp at ht
    · exact h t ht

/-- Tracks that share a target share it in the timeline. -/
theorem targets_of_resolveClip {settings : Settings R} {measurer : Measurer R}
    {flat : List (Object R)} {out compiled : List (Track R)} {target : String}
    (h : List.Forall₂ (fun t t' => Track.resolveClip settings measurer flat t = .ok t') out
      compiled)
    (hout : ∀ t ∈ out, t.target = target) : ∀ t ∈ compiled, t.target = target := by
  intro t' ht'
  obtain ⟨t, ht, hresolve⟩ := exists_related_of_mem h ht'
  rw [(Track.resolveClip_eq_ok hresolve).1, hout t ht]

/-- The tracks of an animation that expansion has put into a group have the object that its target
leads to in the level of the group as their target. -/
theorem Flattening.Source.Emits.targets {d : Disk} {library : EffectLibrary R} {fps : Number R}
    {root own : TimeScope R} {objects level before : List (Object R)} {group : Object R}
    {src : Source R} {e : Entry R} {out : List (Track R)}
    (h : src.Emits d library fps root objects out) (hcause : src.cause = .resolved e)
    (hway : src.way = before ++ [group])
    (hown : TimeScope.along fps root (before ++ [group]) = .ok own)
    (hlevel : absoluteAll fps (Level.along (before ++ [group])) own group.children = .ok level) :
    ∃ found, resolveTarget (localId (Level.along (before ++ [group])).lead e.target) level
        (Level.along (before ++ [group])).path = .ok found ∧
      ∀ t ∈ out, t.target = targetId found := by
  obtain ⟨own', level', hown', hlevel', hemits⟩ := h
  rw [hway] at hown' hlevel' hemits
  rw [hcause] at hemits
  obtain rfl : own = own' := Except.ok.inj (hown.symm.trans hown')
  rw [opened_append_singleton] at hlevel'
  obtain rfl : level = level' := Except.ok.inj (hlevel.symm.trans hlevel')
  rw [← withoutLead_target]
  exact hemits.targets

/-- An object in the level of a group stands in the timeline below the group. -/
theorem way_below {settings : Settings R} {measurer : Measurer R}
    {objects level way between : List (Object R)} {group c : Object R} {p q : List Nat}
    (hgroup : Object.way objects p = some (way ++ [group]))
    (hclipped : Object.resolveAllClips settings measurer level = .ok group.children)
    (hc : Object.way level q = some (between ++ [c])) :
    ∃ copyWay copy, Object.way objects (p ++ q) = some (copyWay ++ [copy]) ∧ copy.id = c.id := by
  obtain ⟨last, hlast, hresolved⟩ := Object.way_resolveAllClips hclipped hc
  obtain ⟨copyWay, copy, rfl, -, hcopy⟩ := forall₂_concat_left hresolved
  refine ⟨way ++ [group] ++ copyWay, copy, ?_, (Object.resolveClips_alike hcopy).1.id⟩
  refine (wayDown_append _).mpr ⟨_, _, hgroup, ?_, List.append_assoc _ _ _⟩
  rwa [opened_append_singleton]

theorem source_aims {d : Disk} {store : DefinitionStore R} {library : EffectLibrary R}
    {fps : Number R} {root : TimeScope R} {settings : Settings R} {measurer : Measurer R}
    {folder : Place} {instances front : List (Instance R)}
    {declared expanded flat objects : List (Object R)} {src : Source R}
    {out compiled : List (Track R)} {i : Instance R} {entry : Entry R} {q : List Nat}
    {inner : List (Object R)} {o : Object R}
    (hof : Instance.Of d store folder declared instances)
    (hexpanded : Instance.expandedAll fps "" 0 instances = .ok expanded)
    (hflat : absoluteAll fps Level.root root expanded = .ok flat)
    (hids : (Address.ids flat).Nodup)
    (hclips : Object.resolveAllClips settings measurer flat = .ok objects)
    (hway : Object.way expanded src.position = some src.way)
    (hemits : src.Emits d library fps root expanded out)
    (hcompiled : List.Forall₂ (fun t t' => Track.resolveClip settings measurer flat t = .ok t') out
      compiled)
    (hanimates : Instance.Animates fps instances front i src entry)
    (hnames : Instance.Names i entry.target q inner o) :
    Aims objects (Instance.Prefixes.along (front ++ [i])) src.position q inner entry.target
      compiled := by
  obtain ⟨hw, ⟨file, hfile, hentry⟩, offset, e, hshifted, hcause⟩ := hanimates
  obtain ⟨⟨file', hfile', hinner⟩, hid, hsegments⟩ := hnames
  cases i with
  | shape b s ex => cases hfile
  | group b cs info ex => cases hfile
  | opened b r ex place content cs =>
    cases hfile
    cases hfile'
    obtain ⟨-, -, -, -, -, hobjects, -⟩ := hof.valid.of_way hw (List.mem_append_right _ (.head _))
    rw [← hobjects] at hinner
    obtain ⟨before, group, offset', own, level, way, group', hbefore, hown, hchildren, -, hlevel,
      hdistinct, hgroup, hclipped, hlead, hscope⟩ := opened_level hexpanded hflat hids hclips hw
    obtain ⟨found, hfound, htargets⟩ :=
      hemits.targets hcause (Option.some.inj (hway.symm.trans hbefore)) hown hlevel
    rw [shifted_target hshifted] at hfound
    generalize hx : Instance.Prefixes.along (front ++ [.opened b r ex place file cs]) = x at *
    have hput : x.put = (Level.along (before ++ [group])).lead ∨ x.put = "" := by
      rw [hlead, ← hx]
      exact Instance.Prefixes.put_opened _ _ _ _ _ _ _
    have hregular : (Level.along (before ++ [group])).Regular := Level.Regular.root.foldl _
    obtain ⟨between, c, id, hc, hcid, hreaches, hunmarked⟩ := target_reaches hchildren hlevel
      hdistinct hlead hregular hput hinner hid hsegments
    obtain ⟨copyWay, copy, hcopied, hcopy⟩ := way_below hgroup hclipped hc
    -- Clips change no id, so a target leads to the same place before and after.
    have hfollow (target : String) :
        (Address.find group'.children target (scopeOf (way ++ [group']))).map Object.id =
          (Address.find level target (scopeOf (way ++ [group']))).map Object.id :=
      Object.follow_resolveAllClips hclipped
    rw [hscope, hlead] at hreaches hunmarked hfound
    refine ⟨way, group', copyWay, copy, id, hgroup, hcopied, hcopy.trans hcid, ?_, ?_⟩
    · rw [reaches_congr (hfollow _), ← hreaches found hfound]
      exact targets_eq_iff (targets_of_resolveClip hcompiled htargets)
    · intro hgroups
      rw [reaches_congr (hfollow _), misleads_congr hfollow, hunmarked hgroups]

/-- The properties that something declared moves, with the effects of a library. -/
def Flattening.Cause.Moves (d : Disk) (library : EffectLibrary R) (properties : List String) :
    Cause R → Prop
  | .entry (.track t) | .resolved (.track t) => properties = [t.property]
  | .entry (.effect use) | .resolved (.effect use) =>
    ∃ effect, library.Gives d use.effect effect ∧ properties = effect.properties.map Prod.fst
  | .enter t | .leave t =>
    ∃ effect, library.Gives d t.effect effect ∧ properties = effect.properties.map Prod.fst

section

variable {d : Disk} {library : EffectLibrary R} {fps : Number R} {out : List (Track R)}

theorem Flattening.EmitsEffect.moves {use : EffectUse R} {target : Object R} {start : Int}
    {frames : FrameMap R} (h : EmitsEffect d library fps use target start frames out) :
    ∃ effect, library.Gives d use.effect effect ∧
      out.map Track.property = effect.properties.map Prod.fst := by
  obtain ⟨effect, tracks, hgives, htracks, hall⟩ := h
  obtain ⟨duration, -, hproperties⟩ := EffectUse.tracksOf_eq_ok htracks
  refine ⟨effect, hgives, ?_⟩
  rw [← List.forall₂_eq_eq_eq, List.forall₂_map_left_iff, List.forall₂_map_right_iff]
  refine ((forall₂_trans hproperties hall).imp ?_).flip
  intro p t' h
  obtain ⟨t, ⟨-, hproperty, -⟩, keyframes, -, rfl⟩ := h
  exact hproperty

theorem Flattening.Source.Emits.moves {root : TimeScope R} {objects : List (Object R)}
    {src : Source R} (h : src.Emits d library fps root objects out) :
    src.cause.Moves d library (out.map Track.property) := by
  obtain ⟨own, level, -, -, h⟩ := h
  rcases src with ⟨position, way, (t | use) | (t | use) | t | t⟩
  · obtain ⟨target, -, keyframes, -, rfl⟩ := h
    rfl
  · obtain ⟨target, -, start, -, h⟩ := h
    exact h.moves
  · obtain ⟨target, -, keyframes, -, rfl⟩ := h
    rfl
  · obtain ⟨target, -, start, -, h⟩ := h
    exact h.moves
  · obtain ⟨around, o, outer, c, -, -, -, path, -, h⟩ := h
    exact h.moves
  · obtain ⟨around, o, outer, c, n, -, -, -, -, path, -, h⟩ := h
    exact h.moves

end

/-- The animations of the file of an instance stand together among the sources, as expansion has
moved them. -/
theorem resolved_infix (entries : List (Entry R)) {fps : Number R} {root : TimeScope R}
    {settings : Settings R} {measurer : Measurer R} {instances front : List (Instance R)}
    {expanded flat out : List (Object R)} {p : List Nat} {i : Instance R}
    {file : Expansion.Definition R}
    (hexpanded : Instance.expandedAll fps "" 0 instances = .ok expanded)
    (hflat : absoluteAll fps Level.root root expanded = .ok flat)
    (hids : (Address.ids flat).Nodup)
    (hclips : Object.resolveAllClips settings measurer flat = .ok out)
    (hw : Instance.way instances p = some (front ++ [i])) (hfile : i.file? = some file) :
    ∃ offset resolved way,
      file.animations.mapM (Expansion.shifted offset
        (Instance.Prefixes.along (front ++ [i])).put fps) = .ok resolved ∧
      resolved.map (⟨p, way, .resolved ·⟩) <:+: sourcesOfAll expanded entries := by
  cases i with
  | shape b sh e => cases hfile
  | group b cs info e => cases hfile
  | opened b r e place content cs =>
    cases hfile
    obtain ⟨before, o, offset, own, level, way, group, hbefore, -, -, hresolved, -⟩ :=
      opened_level hexpanded hflat hids hclips hw
    refine ⟨offset, o.groupInfo.resolved, before ++ [o], hresolved, ?_⟩
    have hown : o.groupInfo.resolved.map Cause.resolved <:+: causesAt entries (before ++ [o]) := by
      rw [causesAt_append_singleton]
      exact (List.suffix_append _ _).isInfix
    have hpart := (hown.map (Source.mk p (before ++ [o]))).trans (infix_sourcesOfAll hbefore)
    rwa [List.map_map] at hpart

/-- A document that compiles has instances, and no others. Every track of the timeline comes from
something that is declared. For an animation of the file of an instance whose path names an object
there, the tracks have the copy of that object in this instance as their target exactly if looking
up the path leads to it. -/
theorem compile_targets_iff {s : Studio R} {folder : Place} {doc : Document R} {c c' : Catalog R}
    {timeline : Timeline R} (h : (s.compile folder doc).Yields c timeline c') :
    ∃ instances, Instance.Of s.disk c.definitions folder doc.objects instances ∧
      (∀ others, Instance.Of s.disk c.definitions folder doc.objects others →
        others = instances) ∧
      ∃ expanded outs,
        Instance.expandedAll (.real doc.project.fps) "" 0 instances = .ok expanded ∧
        timeline.tracks = outs.flatten ∧
        (∀ p front i file, Instance.way instances p = some (front ++ [i]) → i.file? = some file →
          ∃ offset resolved way,
            file.animations.mapM (Expansion.shifted offset
              (Instance.Prefixes.along (front ++ [i])).put (.real doc.project.fps)) =
              .ok resolved ∧
            resolved.map (⟨p, way, .resolved ·⟩) <:+: sourcesOfAll expanded doc.animations) ∧
        List.Forall₂ (fun src out => src.cause.Moves s.disk c.effects (out.map Track.property) ∧
          ∀ front i entry q inner o,
            Instance.Animates (.real doc.project.fps) instances front i src entry →
            Instance.Names i entry.target q inner o →
            Aims timeline.objects (Instance.Prefixes.along (front ++ [i])) src.position q inner
              entry.target out)
          (sourcesOfAll expanded doc.animations) outs := by
  obtain ⟨expanded, flat, tracks, hstages, -⟩ := Studio.compile_yields.mp h
  obtain ⟨instances, hof, hexpanded⟩ := Expansion.expandObjects_yields hstages.expands
  obtain ⟨hflat, hids, emitted, rfl, hemitted⟩ := flatten_yields hstages.flattens
  obtain ⟨hclips, htracks⟩ := resolveClipLengths_eq_ok hstages.clips
  obtain ⟨outs, houts, hcompiled⟩ := forall₂_flatten_left htracks
  refine ⟨instances, hof, fun others hothers => hothers.unique hof, expanded, outs, hexpanded,
    houts, ?_, ?_⟩
  · intro p front i file hw hfile
    exact resolved_infix doc.animations hexpanded hflat hids hclips hw hfile
  · have hways : ∀ src ∈ sourcesOfAll expanded doc.animations,
        Object.way expanded src.position = some src.way := by
      intro src hsrc
      exact (sourcesOfAll_spec hsrc).1
    have hall := forall₂_trans ((List.forall₂_and_left _ _).mpr ⟨hways, hemitted⟩) hcompiled
    refine hall.imp ?_
    intro src compiled hsource
    obtain ⟨out, ⟨hway, hemits⟩, hout⟩ := hsource
    have hproperties : compiled.map Track.property = out.map Track.property := by
      rw [← List.forall₂_eq_eq_eq, List.forall₂_map_left_iff, List.forall₂_map_right_iff]
      exact (hout.imp fun t t' ht => (Track.resolveClip_eq_ok ht).2.1).flip
    refine ⟨?_, ?_⟩
    · rw [hproperties]
      exact hemits.moves
    · intro front i entry q inner o hanimates hnames
      exact source_aims hof hexpanded hflat hids hclips hway hemits hout hanimates hnames

/-- A nameless scene in a component, with an animation that moves an object in a group of its
own. -/
structure MovesOwn (x : Instance.Prefixes) (instances : List (Instance Rat)) (j i : Instance Rat)
    (file : Expansion.Definition Rat) (t : Track Rat) (g o : Object Rat) : Prop where
  way : Instance.way instances [0, 0] = some [j, i]
  opened : i.file? = some file
  animations : file.animations = [.track t]
  target : t.target = "c.x"
  names : Instance.Names i t.target [0, 0] [g] o
  prefixes : Instance.Prefixes.along [j, i] = x
  unmarked : Expansion.isGiven g.groupInfo.expandedFrom = false

/-- Whether instances have such a scene at their first position below the first. -/
def movesOwn (x : Instance.Prefixes) (instances : List (Instance Rat)) : Bool :=
  match Instance.way instances [0, 0] with
  | some [j, .opened b r e place file cs] =>
    match file.animations, Object.way file.objects [0, 0] with
    | [.track t], some [g, o] =>
      decide (t.target = "c.x" ∧ o.id.isSome ∧
        [g, o].filterMap Object.id = Address.segments t.target ∧
        Instance.Prefixes.along [j, .opened b r e place file cs] = x ∧
        Expansion.isGiven g.groupInfo.expandedFrom = false)
    | _, _ => false
  | _ => false

theorem movesOwn_spec {x : Instance.Prefixes} {instances : List (Instance Rat)}
    (h : movesOwn x instances = true) :
    ∃ j i file t g o, MovesOwn x instances j i file t g o := by
  rw [movesOwn] at h
  split at h
  · rename_i j b r e place file cs hway
    split at h
    · rename_i t g o hanimations hobjects
      obtain ⟨htarget, hid, hsegments, hx, hunmarked⟩ := of_decide_eq_true h
      exact ⟨j, .opened b r e place file cs, file, t, g, o, hway, rfl, hanimations, htarget,
        ⟨⟨file, rfl, hobjects⟩, hid, hsegments⟩, hx, hunmarked⟩
    · cases h
  · cases h

theorem MovesOwn.resolved {x : Instance.Prefixes} {instances : List (Instance Rat)}
    {j i : Instance Rat} {file : Expansion.Definition Rat} {t : Track Rat} {g o : Object Rat}
    {fps : Number Rat} {offset : Int} {lead : String} {resolved : List (Entry Rat)}
    (h : MovesOwn x instances j i file t g o)
    (hresolved : file.animations.mapM (Expansion.shifted offset lead fps) = .ok resolved) :
    ∃ e, resolved = [e] ∧ Expansion.shifted offset lead fps (.track t) = .ok e := by
  rw [h.animations, Outcome.mapM_eq_ok] at hresolved
  obtain ⟨e, rest, he, hrest, rfl⟩ := List.forall₂_cons_left_iff.mp hresolved
  obtain rfl := List.forall₂_nil_left_iff.mp hrest
  exact ⟨e, rfl, he⟩

theorem MovesOwn.unmarked_all {x : Instance.Prefixes} {instances : List (Instance Rat)}
    {j i : Instance Rat} {file : Expansion.Definition Rat} {t : Track Rat} {g o : Object Rat}
    (h : MovesOwn x instances j i file t g o) :
    ∀ g' ∈ [g], Expansion.isGiven g'.groupInfo.expandedFrom = false := by
  intro g' hg'
  obtain rfl := List.mem_singleton.mp hg'
  exact h.unmarked

/-- The name of the component does not lead the target. -/
theorem MovesOwn.leads {x : Instance.Prefixes} {instances : List (Instance Rat)}
    {j i : Instance Rat} {file : Expansion.Definition Rat} {t : Track Rat} {g o : Object Rat}
    (h : MovesOwn x instances j i file t g o) (objects : List (Object Rat)) (scope : String) :
    ¬ Misleads objects scope "k." t.target := by
  intro hmisleads
  obtain ⟨-, more, hmore, -⟩ := hmisleads
  have := congrArg String.toList (h.target.symm.trans hmore)
  simp at this

theorem nested_target_reached :
    ∃ (timeline : Timeline Rat) (c' : Catalog Rat) (way : List (Object Rat)) (copy : Object Rat)
      (id : String) (out : List (Track Rat)),
      (bareStudio.compile ⟨[]⟩ (nestedDocument "k")).Yields ⟨nestedFiles, ⟨[], []⟩⟩ timeline c' ∧
      Object.way timeline.objects [0, 0, 0, 0] = some (way ++ [copy]) ∧ copy.id = some id ∧
      out ≠ [] ∧ ∀ t ∈ out, t ∈ timeline.tracks ∧ t.target = id := by
  have hok : ((bareStudio.compile ⟨[]⟩ (nestedDocument "k")).exec
      ⟨nestedFiles, ⟨[], []⟩⟩).1.toOption.any (fun _ => true) = true := by
    decide +kernel
  have hinstances : (Instance.ofDocument bareStudio.disk nestedFiles 2 ⟨[]⟩
      (nestedDocument "k").objects).any (movesOwn ⟨"", "k."⟩) = true := by
    decide +kernel
  obtain ⟨timeline, c', hrun, -⟩ := Run.yields_of_test _ hok
  obtain ⟨instances, hof, htest⟩ := (Option.any_eq_true _ _).mp hinstances
  obtain ⟨j, i, file, t, g, o, hmoves⟩ := movesOwn_spec htest
  obtain ⟨all, -, hunique, expanded, outs, -, htracks, hsources, hall⟩ := compile_targets_iff hrun
  obtain rfl : instances = all := hunique instances (Instance.of_ofDocument hof)
  obtain ⟨offset, resolved, before, hresolved, hpart⟩ :=
    hsources [0, 0] [j] i file hmoves.way hmoves.opened
  obtain ⟨e, rfl, he⟩ := hmoves.resolved hresolved
  obtain ⟨out, hout, hmovesOut, haims⟩ :=
    exists_related_of_mem hall.flip (hpart.subset List.mem_cons_self)
  have hanimates : Instance.Animates (.real (nestedDocument "k").project.fps) instances [j] i
      ⟨[0, 0], before, .resolved e⟩ (.track t) :=
    ⟨hmoves.way, ⟨file, hmoves.opened, by rw [hmoves.animations]; exact List.mem_cons_self⟩,
      offset, e, he, rfl⟩
  obtain ⟨way, group, copyWay, copy, id, -, hcopy, hid, htargets, hreaches⟩ :=
    haims [j] i (.track t) [0, 0] [g] o hanimates hmoves.names
  have hprefixes : Instance.Prefixes.along ([j] ++ [i]) = ⟨"", "k."⟩ := hmoves.prefixes
  rw [hprefixes] at htargets hreaches
  have hleads := (hreaches hmoves.unmarked_all).mpr (.inr (hmoves.leads _ _))
  refine ⟨timeline, c', copyWay, copy, id, out, hrun, hcopy, hid, ?_, ?_⟩
  · intro hnil
    obtain ⟨keyframes, -, he⟩ := Outcome.bind_eq_ok.mp he
    cases he
    rw [hnil] at hmovesOut
    cases hmovesOut
  · intro t' ht'
    refine ⟨?_, htargets.mpr (.inr hleads) t' ht'⟩
    rw [htracks]
    exact List.mem_flatten_of_mem hout ht'

/-- The scene moves the rectangle in its group `c`. In a component `c` flattening takes away the
name of the group, and the rectangle beside the group is moved instead. -/
theorem nested_target_missed :
    ∃ (timeline : Timeline Rat) (c' : Catalog Rat) (instances : List (Instance Rat))
      (j i : Instance Rat) (file : Expansion.Definition Rat) (t : Track Rat) (g o : Object Rat),
      (bareStudio.compile ⟨[]⟩ (nestedDocument "c")).Yields ⟨nestedFiles, ⟨[], []⟩⟩ timeline c' ∧
      Instance.Of bareStudio.disk nestedFiles ⟨[]⟩ (nestedDocument "c").objects instances ∧
      MovesOwn ⟨"", "c."⟩ instances j i file t g o ∧
      (Object.way timeline.objects [0, 0, 0, 0]).map (List.map Object.id) =
        some [some "c", none, some "c.c", some "c.c.x"] ∧
      timeline.tracks.map Track.target = ["c.x"] := by
  have hok : ((bareStudio.compile ⟨[]⟩ (nestedDocument "c")).exec
      ⟨nestedFiles, ⟨[], []⟩⟩).1.toOption.any (fun timeline => decide
        ((Object.way timeline.objects [0, 0, 0, 0]).map (List.map Object.id) =
          some [some "c", none, some "c.c", some "c.c.x"] ∧
        timeline.tracks.map Track.target = ["c.x"])) = true := by
    decide +kernel
  have hinstances : (Instance.ofDocument bareStudio.disk nestedFiles 2 ⟨[]⟩
      (nestedDocument "c").objects).any (movesOwn ⟨"", "c."⟩) = true := by
    decide +kernel
  obtain ⟨timeline, c', hrun, hmissed⟩ := Run.yields_of_test _ hok
  obtain ⟨hcopy, htarget⟩ := of_decide_eq_true hmissed
  obtain ⟨instances, hof, htest⟩ := (Option.any_eq_true _ _).mp hinstances
  obtain ⟨j, i, file, t, g, o, hmoves⟩ := movesOwn_spec htest
  exact ⟨timeline, c', instances, j, i, file, t, g, o, hrun, Instance.of_ofDocument hof, hmoves,
    hcopy, htarget⟩

end Storyboard
