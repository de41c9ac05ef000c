import Storyboard.Proofs.Faults
import Storyboard.Proofs.Targets

namespace Storyboard

namespace Address

open Flattening (Undotted)

/-- Names that can be told from their path: none of them has a dot, and the first is not empty
unless it is the only one. -/
def Addressable (names : List String) : Prop :=
  (∀ s ∈ names, Undotted s) ∧ (names.length ≤ 1 ∨ names.head? ≠ some "")

theorem split_of_notMem {cs : List Char} (hcs : '.' ∉ cs) (acc : List Char) :
    segments.split acc cs = [String.ofList (acc.reverse ++ cs)] := by
  induction cs generalizing acc with
  | nil => simp [segments.split]
  | cons c cs ih =>
    obtain ⟨hc, hcs⟩ := not_or.mp (mt List.mem_cons.mpr hcs)
    have hdot : (c == '.') = false := by simpa using Ne.symm hc
    rw [segments.split, hdot]
    simpa using ih hcs (c :: acc)

theorem segments_undotted {s : String} (hs : Undotted s) : segments s = [s] := by
  rw [segments, split_of_notMem hs]
  simp

theorem split_dot (acc cs tail : List Char) :
    segments.split acc (cs ++ '.' :: tail) =
      segments.split acc cs ++ segments.split [] tail := by
  induction cs generalizing acc with
  | nil => rfl
  | cons c cs ih =>
    rw [List.cons_append, segments.split, segments.split]
    split
    · rw [ih, List.cons_append]
    · exact ih _

theorem segments_append (s t : String) :
    segments (s ++ "." ++ t) = segments s ++ segments t := by
  have hchars : (s ++ "." ++ t).toList = s.toList ++ '.' :: t.toList := by simp
  rw [segments, hchars, split_dot]
  rfl

theorem segments_intercalate {names : List String} (hne : names ≠ [])
    (hall : ∀ s ∈ names, Undotted s) : segments (".".intercalate names) = names := by
  induction names with
  | nil => exact absurd rfl hne
  | cons s rest ih =>
    have hs := hall s List.mem_cons_self
    by_cases hrest : rest = []
    · subst hrest
      rw [String.intercalate_singleton, segments_undotted hs]
    · rw [String.intercalate_cons_of_ne_nil hrest, segments_append, segments_undotted hs,
        ih hrest fun t ht => hall t (List.mem_cons_of_mem _ ht)]
      rfl

/-- Empty names in front of all others leave no trace in a path. -/
theorem foldl_join_root (names : List String) :
    names.foldl join "" = ".".intercalate (names.dropWhile (· = "")) := by
  induction names with
  | nil => rfl
  | cons s rest ih =>
    rw [List.foldl_cons, join_empty]
    by_cases hs : s = ""
    · subst hs
      simpa using ih
    · rw [List.dropWhile_cons_of_neg (by simpa using hs)]
      by_cases hrest : rest = []
      · subst hrest
        simp
      · rw [foldl_join hs hrest, String.intercalate_cons_of_ne_nil hrest]

theorem segments_foldl_join {names : List String} (hne : names ≠ []) :
    segments (names.foldl join "") = names ↔ Addressable names := by
  rw [foldl_join_root]
  constructor
  · intro h
    have hall : ∀ s ∈ names, Undotted s := fun s hs => undotted_of_mem_segments (h ▸ hs)
    refine ⟨hall, ?_⟩
    have hkept : ∀ s ∈ names.dropWhile (· = ""), Undotted s := fun s hs =>
      hall s ((List.dropWhile_sublist _).subset hs)
    by_cases hdrop : names.dropWhile (· = "") = []
    · rw [hdrop] at h
      exact .inl (by rw [← h]; simp [segments, segments.split])
    · rw [segments_intercalate hdrop hkept] at h
      right
      intro hhead
      have := List.head?_dropWhile_not (p := fun s : String => decide (s = "")) names
      rw [h, hhead] at this
      simp at this
  · intro h
    obtain ⟨hall, hfirst⟩ := h
    cases names with
    | nil => exact absurd rfl hne
    | cons s rest =>
      by_cases hs : s = ""
      · subst hs
        obtain rfl : rest = [] := by simpa using hfirst
        simp [segments, segments.split]
      · rw [List.dropWhile_cons_of_neg (by simpa using hs), segments_intercalate hne hall]

theorem foldl_segments_root {path : String} (h : ∀ rest, path ≠ "." ++ rest) :
    (segments path).foldl join "" = path := by
  cases hsegments : segments path with
  | nil => exact absurd hsegments (segments_ne_nil path)
  | cons s rest =>
    have hpath := intercalate_segments path
    rw [hsegments] at hpath
    by_cases hrest : rest = []
    · subst hrest
      rw [← hpath, String.intercalate_singleton]
      rfl
    · have hs : s ≠ "" := by
        rintro rfl
        rw [String.intercalate_cons_of_ne_nil hrest, String.empty_append] at hpath
        exact h _ hpath.symm
      rw [List.foldl_cons, join_empty, foldl_join hs hrest, ← hpath,
        String.intercalate_cons_of_ne_nil hrest]

theorem join_right_injective (scope : String) : Function.Injective (join scope) := by
  intro a b h
  rw [join, join] at h
  split at h
  · exact h
  · exact (String.append_right_inj _).mp h

theorem trail_injective (scope : String) : Function.Injective (trail scope) := by
  intro names others h
  induction names generalizing scope others with
  | nil => cases others with
    | nil => rfl
    | cons t others => simp [trail] at h
  | cons s rest ih => cases others with
    | nil => simp [trail] at h
    | cons t others =>
      obtain ⟨hfirst, hrest⟩ := List.cons.inj h
      obtain rfl := join_right_injective scope hfirst
      rw [ih _ hrest]

theorem getLast?_trail {scope : String} {names : List String} (hne : names ≠ []) :
    (trail scope names).getLast? = some (names.foldl join scope) := by
  induction names generalizing scope with
  | nil => exact absurd rfl hne
  | cons s rest ih =>
    cases rest with
    | nil => rfl
    | cons t rest =>
      rw [trail, List.getLast?_cons_of_ne_nil (by simp [trail]), ih (List.cons_ne_nil _ _)]
      rfl

variable {R : Type}

theorem way_of_mem_walk {objects : List (Object R)} {o : Object R} (ho : o ∈ walk objects) :
    ∃ p front, Object.way objects p = some (front ++ [o]) := by
  induction objects using Object.descent with
  | nil => simp [walk] at ho
  | cons x rest ihChildren ihRest =>
    rw [walk_cons, List.cons_append] at ho
    rcases List.mem_cons.mp ho with rfl | ho
    · exact ⟨[0], [], rfl⟩
    · rcases List.mem_append.mp ho with ho | ho
      · obtain ⟨p, front, hw⟩ := ihChildren ho
        exact ⟨0 :: p, x :: front, (wayDown_cons_eq_some _).mpr ⟨x, _, rfl, hw, rfl⟩⟩
      · obtain ⟨p, front, hw⟩ := ihRest ho
        cases p with
        | nil => simp [Object.way] at hw
        | cons i p =>
          obtain ⟨y, tail, hy, htail, he⟩ := (wayDown_cons_eq_some _).mp hw
          exact ⟨(i + 1) :: p, front, (wayDown_cons_eq_some _).mpr ⟨y, tail, hy, htail, he⟩⟩

theorem filterMap_id (objects : List (Object R)) :
    objects.filterMap Object.id = (objects.map Object.id).reduceOption := by
  rw [List.reduceOption, List.filterMap_map]
  rfl

theorem mem_ids_of_way {objects front : List (Object R)} {p : List Nat} {o : Object R} {k : String}
    (hw : Object.way objects p = some (front ++ [o])) (hk : o.id = some k) : k ∈ ids objects :=
  List.mem_filterMap.mpr ⟨o, mem_walk_of_way hw (by simp), hk⟩

theorem mem_ids_of_way_zero {x o : Object R} {rest front : List (Object R)} {p : List Nat}
    {k : String} (hw : Object.way (x :: rest) (0 :: p) = some (front ++ [o]))
    (hk : o.id = some k) : k ∈ x.id.toList ++ ids x.children := by
  rcases (wayDown_cons_eq_append _).mp hw with ⟨-, -, hy⟩ | ⟨y, tail, -, hy, htail⟩
  · obtain rfl := Option.some.inj hy
    exact List.mem_append_left _ (by simp [hk])
  · obtain rfl := Option.some.inj hy
    exact List.mem_append_right _ (mem_ids_of_way htail hk)

/-- In a tree with distinct ids only one way leads down to an id. -/
theorem way_unique {objects front front' : List (Object R)} {p q : List Nat} {o o' : Object R}
    {k : String} (hids : (ids objects).Nodup) (hp : Object.way objects p = some (front ++ [o]))
    (hq : Object.way objects q = some (front' ++ [o'])) (hk : o.id = some k)
    (hk' : o'.id = some k) : front ++ [o] = front' ++ [o'] := by
  induction objects using Object.descent generalizing p q front front' with
  | nil => cases p <;> simp [Object.way, wayDown] at hp
  | cons x rest ihChildren ihRest =>
    rcases p with _ | ⟨i, p⟩
    · simp [Object.way] at hp
    rcases q with _ | ⟨j, q⟩
    · simp [Object.way] at hq
    rw [ids_cons] at hids
    obtain ⟨hfirst, hrest, hapart⟩ := List.nodup_append.mp hids
    obtain ⟨-, hchildren, hinside⟩ := List.nodup_append.mp hfirst
    -- The id is that of `x`, or it is in the tree of `x`, or in the rest: only one of them.
    rcases i with _ | i <;> rcases j with _ | j
    · rcases (wayDown_cons_eq_append _).mp hp with ⟨-, rfl, hy⟩ | ⟨y, tail, rfl, hy, htail⟩ <;>
        rcases (wayDown_cons_eq_append _).mp hq with ⟨-, rfl, hz⟩ | ⟨z, tail', rfl, hz, htail'⟩
      · rw [← Option.some.inj hy, ← Option.some.inj hz]
      · obtain rfl := Option.some.inj hy
        obtain rfl := Option.some.inj hz
        exact (hinside k (by simp [hk]) k (mem_ids_of_way htail' hk') rfl).elim
      · obtain rfl := Option.some.inj hy
        obtain rfl := Option.some.inj hz
        exact (hinside k (by simp [hk']) k (mem_ids_of_way htail hk) rfl).elim
      · obtain rfl := Option.some.inj hy
        obtain rfl := Option.some.inj hz
        exact congrArg (x :: ·) (ihChildren hchildren htail htail')
    · have hbehind := mem_ids_of_way (p := j :: q) hq hk'
      exact (hapart k (mem_ids_of_way_zero hp hk) k hbehind rfl).elim
    · have hbehind := mem_ids_of_way (p := i :: p) hp hk
      exact (hapart k (mem_ids_of_way_zero hq hk') k hbehind rfl).elim
    · exact ihRest (p := i :: p) (q := j :: q) hrest hp hq

theorem way_of_mem_level {objects : List (Object R)} {o : Object R} (ho : o ∈ level objects) :
    ∃ p front, Object.way objects p = some (front ++ [o]) ∧ ∀ x ∈ front, x.id = none := by
  have hbehind {x : Object R} {rest : List (Object R)}
      (h : ∃ p front, Object.way rest p = some (front ++ [o]) ∧ ∀ x ∈ front, x.id = none) :
      ∃ p front, Object.way (x :: rest) p = some (front ++ [o]) ∧ ∀ x ∈ front, x.id = none := by
    obtain ⟨p, front, hw, hfront⟩ := h
    cases p with
    | nil => simp [Object.way] at hw
    | cons i p =>
      obtain ⟨y, tail, hy, htail, he⟩ := (wayDown_cons_eq_some _).mp hw
      exact ⟨(i + 1) :: p, front, (wayDown_cons_eq_some _).mpr ⟨y, tail, hy, htail, he⟩, hfront⟩
  induction objects using Object.forest with
  | nil => simp [level] at ho
  | shape b s e rest ih | reference b r e rest ih =>
    rcases List.mem_cons.mp ho with rfl | ho
    · exact ⟨[0], [], rfl, by simp⟩
    · exact hbehind (ih ho)
  | group b cs info e rest ihChildren ihRest =>
    rcases List.mem_append.mp ho with ho | ho
    · rw [members] at ho
      split at ho
      · rename_i hid
        obtain ⟨p, front, hw, hfront⟩ := ihChildren ho
        refine ⟨0 :: p, .group b cs info e :: front, ?_, ?_⟩
        · exact (wayDown_cons_eq_some _).mpr ⟨_, _, rfl, hw, rfl⟩
        · intro x hx
          rcases List.mem_cons.mp hx with rfl | hx
          · exact Option.isNone_iff_eq_none.mp hid
          · exact hfront x hx
      · obtain rfl := List.mem_singleton.mp ho
        exact ⟨[0], [], rfl, by simp⟩
    · exact hbehind (ihRest ho)

/-- What is found stands below objects whose ids are the paths that are passed. -/
theorem way_of_follow {objects : List (Object R)} {scope : String} {names : List String}
    {o : Object R} (h : follow objects scope names = some o) :
    ∃ p front, Object.way objects p = some (front ++ [o]) ∧
      (front ++ [o]).filterMap Object.id = trail scope names := by
  have hlocal {objects : List (Object R)} {k : String} {x : Object R}
      (hx : findLocal objects k = some x) :
      ∃ p front, Object.way objects p = some (front ++ [x]) ∧
        (front ++ [x]).filterMap Object.id = [k] := by
    have hid : x.id = some k := by simpa using List.find?_some hx
    obtain ⟨p, front, hw, hfront⟩ := way_of_mem_level (List.mem_of_find?_eq_some hx)
    refine ⟨p, front, hw, ?_⟩
    simp [List.filterMap_eq_nil_iff.mpr hfront, hid]
  induction names generalizing objects scope with
  | nil => simp [follow] at h
  | cons name rest ih =>
    by_cases hrest : rest = []
    · subst hrest
      exact hlocal h
    · rw [follow_cons hrest] at h
      obtain ⟨x, hx, h⟩ := Option.bind_eq_some_iff.mp h
      obtain ⟨p, front, hw, hids⟩ := hlocal hx
      obtain ⟨q, inner, hw', hids'⟩ := ih h
      refine ⟨p ++ q, front ++ [x] ++ inner, ?_, ?_⟩
      · refine (wayDown_append _).mpr ⟨_, inner ++ [o], hw, ?_, by simp⟩
        rw [opened_append_singleton]
        exact hw'
      · rw [List.append_assoc, List.filterMap_append, hids, hids']
        rfl

/-- In a tree with distinct ids, in which names are joined to ids on the way down to an object, its
id leads back to it exactly if the names can be told from it. -/
theorem find_eq_some_iff {objects front : List (Object R)} {p : List Nat} {c : Object R}
    {names : List String} {k : String} (hids : (ids objects).Nodup)
    (hw : Object.way objects p = some (front ++ [c])) (hk : c.id = some k)
    (hnames : (front ++ [c]).filterMap Object.id = trail "" names) :
    find objects k "" = some c ↔ Addressable names := by
  have hne : names ≠ [] := by
    rintro rfl
    simp [trail, hk] at hnames
  have hlast := congrArg List.getLast? hnames
  rw [getLast?_trail hne] at hlast
  obtain rfl : k = names.foldl join "" := by simpa [hk] using hlast
  rw [← segments_foldl_join hne]
  constructor
  · intro h
    obtain ⟨q, between, hq, htrail⟩ := way_of_follow h
    rw [← way_unique hids hw hq hk hk, hnames] at htrail
    exact (trail_injective "" htrail).symm
  · intro h
    rw [find, h]
    exact follow_of_way hids hw (by simp [hk]) hnames

/-- A path that does not begin with a dot leads to the object with this id or nowhere. -/
theorem find_eq_none_iff {objects front : List (Object R)} {p : List Nat} {c : Object R}
    {names : List String} {k : String} (hids : (ids objects).Nodup)
    (hw : Object.way objects p = some (front ++ [c])) (hk : c.id = some k)
    (hnames : (front ++ [c]).filterMap Object.id = trail "" names)
    (hdot : ∀ rest, k ≠ "." ++ rest) :
    find objects k "" = none ↔ ¬ Addressable names := by
  rw [← find_eq_some_iff hids hw hk hnames]
  constructor
  · intro h hsome
    cases h.symm.trans hsome
  · intro hnot
    by_contra hfound
    obtain ⟨o, ho⟩ := Option.ne_none_iff_exists'.mp hfound
    obtain ⟨hid, hmem⟩ := id_of_follow ho
    rw [foldl_segments_root hdot] at hid
    have hc := mem_walk_of_way hw (List.mem_append_right front (.head _))
    exact hnot (eq_of_id_eq hids hmem hc hid hk ▸ ho)

end Address

namespace Flattening

variable {R : Type}

/-- The names that full paths are joined from on a way down: ids behind the prefixes that flattening
takes away. -/
def Level.namesAlong (l : Level) : List (Object R) → List String
  | [] => []
  | o :: rest => (o.id.map (localId l.lead)).toList ++ (l.inside o).namesAlong rest

/-- The names on the way down to a position, outermost first. -/
def namesAt (objects : List (Object R)) (p : List Nat) : List String :=
  ((Object.way objects p).map Level.root.namesAlong).getD []

theorem path_inside_group (l : Level) (b : Base R) (cs : List (Object R)) (info : GroupInfo R)
    (e : Members R) :
    (l.inside (.group b cs info e)).path =
      (b.id.map fun raw => Address.join l.path (localId l.lead raw)).getD l.path := by
  cases hid : b.id with
  | none => simp [Level.inside, hid, innerPath]
  | some raw => simp [Level.inside, hid, Address.innerPath_join]

/-- The ids on a way down are the paths that are passed when its names are joined one after
another. -/
theorem trail_namesAlong {l : Level} {objects way : List (Object R)} {p : List Nat}
    (hw : Object.way objects p = some way) :
    (l.idsAlong way).reduceOption = Address.trail l.path (l.namesAlong way) := by
  induction p generalizing l objects way with
  | nil =>
    cases hw
    rfl
  | cons i p ih =>
    obtain ⟨o, rest, ho, hrest, rfl⟩ := (wayDown_cons_eq_some _).mp hw
    have hinner := ih (l := l.inside o) hrest
    -- Below an object that is no group there is nothing, so its level does not matter.
    have hpath : rest = [] ∨ (l.inside o).path =
        (o.id.map fun raw => Address.join l.path (localId l.lead raw)).getD l.path := by
      cases o with
      | group b cs info e => exact .inr (path_inside_group l b cs info e)
      | shape b s e | reference b r e =>
        cases p with
        | nil => exact .inl (by simpa using hrest.symm)
        | cons j p => simp [Object.children, wayDown] at hrest
    cases hid : o.id with
    | none =>
      rcases hpath with rfl | hpath
      · simp [Level.idsAlong, Level.namesAlong, hid, Address.trail]
      · rw [hpath, hid] at hinner
        simpa [Level.idsAlong, Level.namesAlong, hid] using hinner
    | some raw =>
      rcases hpath with rfl | hpath
      · simp [Level.idsAlong, Level.namesAlong, hid, Address.trail]
      · rw [hpath, hid] at hinner
        simpa [Level.idsAlong, Level.namesAlong, hid, Address.trail] using hinner

variable [Scalar R]

/-- What stands at a position of a compiled tree has been compiled from what stood there before. -/
theorem way_of_absoluteAll {fps : Number R} {l : Level} {scope : TimeScope R}
    {objects compiled way : List (Object R)} {p : List Nat}
    (h : absoluteAll fps l scope objects = .ok compiled)
    (hw : Object.way compiled p = some way) :
    ∃ before, Object.way objects p = some before ∧ way.map Object.id = l.idsAlong before := by
  induction p generalizing l scope objects compiled way with
  | nil =>
    cases hw
    exact ⟨[], rfl, rfl⟩
  | cons i p ih =>
    obtain ⟨c, rest, hc, hrest, rfl⟩ := (wayDown_cons_eq_some _).mp hw
    have hall := absoluteAll_eq_ok.mp h
    obtain ⟨hi, rfl⟩ := List.getElem?_eq_some_iff.mp hc
    have hi' : i < objects.length := hall.length_eq ▸ hi
    have habs : absolute fps l scope objects[i] = .ok compiled[i] := hall.get hi' hi
    obtain ⟨own, hchildren, -⟩ := absolute_children habs
    obtain ⟨before, hbefore, hids⟩ := ih hchildren hrest
    refine ⟨objects[i] :: before, ?_, ?_⟩
    · exact (wayDown_cons_eq_some _).mpr ⟨_, _, List.getElem?_eq_getElem hi', hbefore, rfl⟩
    · rw [List.map_cons, absolute_id habs, hids]
      rfl

/-- The compiled object that the tracks of a source animate: what its target means, or the group
whose transition it is. -/
def Source.Means (fps : Number R) (root : TimeScope R) (objects : List (Object R)) (src : Source R)
    (c : Object R) : Prop :=
  ∃ own level, TimeScope.along fps root src.way = .ok own ∧
    absoluteAll fps (Level.along src.way) own (opened Object.children objects src.way) =
      .ok level ∧
    match src.cause with
    | .entry e => resolveTarget e.target level (Level.along src.way).path = .ok c
    | .resolved e => resolveTarget (localId (Level.along src.way).lead e.target) level
        (Level.along src.way).path = .ok c
    | .enter _ | .leave _ => ∃ around o outer, src.way = around ++ [o] ∧
        TimeScope.along fps root around = .ok outer ∧
        absolute fps (Level.along around) outer o = .ok c

theorem EmitsEffect.targets {d : Disk} {library : EffectLibrary R} {fps : Number R}
    {use : EffectUse R} {target : Object R} {start : Int} {frames : FrameMap R}
    {out : List (Track R)} (h : EmitsEffect d library fps use target start frames out) :
    ∀ t ∈ out, t.target = use.target := by
  obtain ⟨effect, tracks, -, htracks, hall⟩ := h
  obtain ⟨duration, -, hproperties⟩ := EffectUse.tracksOf_eq_ok htracks
  intro t' ht'
  obtain ⟨t, ht, keyframes, -, rfl⟩ := exists_related_of_mem hall ht'
  obtain ⟨p, -, htarget, -, -⟩ := exists_related_of_mem hproperties ht
  exact htarget

section

variable {d : Disk} {library : EffectLibrary R} {fps : Number R} {root : TimeScope R}
  {objects compiled : List (Object R)} {src : Source R} {out : List (Track R)} {c : Object R}

theorem Source.Emits.means (h : src.Emits d library fps root objects out) :
    ∃ c, src.Means fps root objects c ∧ c.id.isSome ∧ ∀ t ∈ out, c.id = some t.target := by
  have hfound {target path : String} {level : List (Object R)} {c : Object R}
      (hc : resolveTarget target level path = .ok c)
      (hout : ∀ t ∈ out, t.target = targetId c) :
      c.id.isSome ∧ ∀ t ∈ out, c.id = some t.target := by
    obtain ⟨id, hid⟩ := id_of_resolveTarget hc
    refine ⟨by simp [hid], fun t ht => ?_⟩
    simp [hout t ht, targetId, hid]
  obtain ⟨own, level, hown, hlevel, h⟩ := h
  rcases src with ⟨position, way, e | e | t | t⟩
  · obtain ⟨c, hc, hout⟩ := h.targets
    exact ⟨c, ⟨own, level, hown, hlevel, hc⟩, hfound hc hout⟩
  · obtain ⟨c, hc, hout⟩ := h.targets
    rw [withoutLead_target] at hc
    exact ⟨c, ⟨own, level, hown, hlevel, hc⟩, hfound hc hout⟩
  · obtain ⟨around, o, outer, c, hw, houter, hc, path, hpath, h⟩ := h
    refine ⟨c, ⟨own, level, hown, hlevel, around, o, outer, hw, houter, hc⟩, by simp [hpath], ?_⟩
    intro t' ht'
    rw [hpath, h.targets t' ht']
  · obtain ⟨around, o, outer, c, n, hw, houter, hc, -, path, hpath, h⟩ := h
    refine ⟨c, ⟨own, level, hown, hlevel, around, o, outer, hw, houter, hc⟩, by simp [hpath], ?_⟩
    intro t' ht'
    rw [hpath, h.targets t' ht']

/-- The level that a way down opens stands in the compiled tree. -/
theorem opened_absoluteAll {way level : List (Object R)} {p : List Nat} {own : TimeScope R}
    (hcompiled : absoluteAll fps Level.root root objects = .ok compiled)
    (hw : Object.way objects p = some way) (hown : TimeScope.along fps root way = .ok own)
    (hlevel : absoluteAll fps (Level.along way) own (opened Object.children objects way) =
      .ok level) :
    ∃ way', Object.way compiled p = some way' ∧ opened Object.children compiled way' = level := by
  cases p with
  | nil =>
    cases hw
    cases hown
    exact ⟨[], rfl, Except.ok.inj (hcompiled.symm.trans hlevel)⟩
  | cons i p =>
    obtain ⟨front, o, rfl⟩ := wayDown_cons_last _ hw
    obtain ⟨way', c, outer, hway', houter, hc⟩ := absoluteAll_at hcompiled hw
    obtain ⟨own', hchildren, henter⟩ := absolute_children hc
    refine ⟨way' ++ [c], hway', ?_⟩
    rw [opened_append_singleton] at hlevel ⊢
    rw [Level.along_concat] at hlevel
    by_cases hnone : o.children = []
    · rw [hnone] at hlevel hchildren
      exact Except.ok.inj (hchildren.symm.trans hlevel)
    · obtain ⟨outer', houter', henter'⟩ := TimeScope.along_concat_eq_ok.mp hown
      obtain rfl : outer' = outer := Except.ok.inj (houter'.symm.trans houter)
      obtain rfl : own = own' := Except.ok.inj (henter'.symm.trans (henter hnone))
      exact Except.ok.inj (hchildren.symm.trans hlevel)

omit [Scalar R] in
theorem mem_walk_of_resolveTarget {target path : String} {level : List (Object R)}
    (h : resolveTarget target level path = .ok c) : c ∈ Address.walk level := by
  rcases resolveTarget_eq_ok h with hfind | ⟨-, hall⟩
  · exact (Address.id_of_follow hfind).2
  · have hmem : c ∈ Address.descendants level target := by simp [hall]
    exact (List.mem_filter.mp hmem).1

/-- What the tracks of a source animate stands in the compiled tree. -/
theorem Source.Means.way (h : src.Means fps root objects c)
    (hcompiled : absoluteAll fps Level.root root objects = .ok compiled)
    (hw : Object.way objects src.position = some src.way) :
    ∃ p front, Object.way compiled p = some (front ++ [c]) := by
  obtain ⟨own, level, hown, hlevel, h⟩ := h
  obtain ⟨way', hway', hopened⟩ := opened_absoluteAll hcompiled hw hown hlevel
  have hbelow {target path : String} (hc : resolveTarget target level path = .ok c) :
      ∃ p front, Object.way compiled p = some (front ++ [c]) := by
    obtain ⟨q, inner, hq⟩ := Address.way_of_mem_walk (mem_walk_of_resolveTarget hc)
    refine ⟨src.position ++ q, way' ++ inner, ?_⟩
    exact (wayDown_append _).mpr ⟨way', inner ++ [c], hway', hopened ▸ hq, by simp⟩
  have hgroup (hc : ∃ around o outer, src.way = around ++ [o] ∧
      TimeScope.along fps root around = .ok outer ∧
      absolute fps (Level.along around) outer o = .ok c) :
      ∃ p front, Object.way compiled p = some (front ++ [c]) := by
    obtain ⟨around, o, outer, hway, houter, hc⟩ := hc
    rw [hway] at hw
    obtain ⟨front, c', outer', hc', houter', habs⟩ := absoluteAll_at hcompiled hw
    obtain rfl : outer = outer' := Except.ok.inj (houter.symm.trans houter')
    obtain rfl : c = c' := Except.ok.inj (hc.symm.trans habs)
    exact ⟨src.position, front, hc'⟩
  rcases src with ⟨position, way, e | e | t | t⟩
  · exact hbelow h
  · exact hbelow h
  · exact hgroup h
  · exact hgroup h

end

/-- The tracks of a source have the id of an object as their target, at a position of the compiled
tree, and the id leads back to that object exactly if the names on the way down can be told from it.
Then the check of a track finds its target; otherwise it does not, unless the id begins with a
dot. -/
def Traced (fps : Number R) (root : TimeScope R) (objects compiled clipped : List (Object R))
    (src : Source R) (tracks : List (Track R)) : Prop :=
  ∃ p c c' front front', src.Means fps root objects c ∧
    Object.way compiled p = some (front ++ [c]) ∧ Object.way clipped p = some (front' ++ [c']) ∧
    ∀ t ∈ tracks, c.id = some t.target ∧ c'.id = some t.target ∧
      (Address.find compiled t.target "" = some c ↔ Address.Addressable (namesAt objects p)) ∧
      (Address.find clipped t.target "" = some c' ↔ Address.Addressable (namesAt objects p)) ∧
      ((∀ rest, t.target ≠ "." ++ rest) →
        (t.check clipped = .error (.unknownTarget t.target t.property) ↔
          ¬ Address.Addressable (namesAt objects p)))

end Flattening

namespace Track

variable {R : Type} [Scalar R]

theorem check_unknownTarget {objects : List (Object R)} {t : Track R} {target property : String} :
    t.check objects = .error (.unknownTarget target property) ↔
      Address.find objects t.target "" = none ∧ target = t.target ∧ property = t.property := by
  rw [check]
  cases Address.find objects t.target "" with
  | none =>
    change (Except.error _ : Outcome Unit) = _ ↔ _
    simp [eq_comm]
  | some o =>
    have hmild : Outcome.Mild R (if o.canAnimate t.property then
        checkEasings ("animation " ++ quote t.target) t.property 0 t.keyframes
        else throw (.foreignProperty t.property t.target o.kind o.animatable)) := by
      split
      · exact mild_checkEasings _ _ _ _
      · exact Outcome.mild_error rfl rfl
    exact iff_of_false (fun h => Bool.noConfusion (hmild _ h).1) (by simp)

theorem checkAll_unknownTarget {objects : List (Object R)} {tracks : List (Track R)}
    {target property : String}
    (h : checkAll objects tracks = .error (.unknownTarget target property)) :
    ∃ t ∈ tracks, t.check objects = .error (.unknownTarget target property) := by
  induction tracks with
  | nil => cases h
  | cons t rest ih =>
    rw [checkAll] at h
    cases hcheck : t.check objects with
    | error f =>
      rw [hcheck] at h
      cases h
      exact ⟨t, List.mem_cons_self, hcheck⟩
    | ok u =>
      rw [hcheck] at h
      obtain ⟨t', ht', hcheck'⟩ := ih h
      exact ⟨t', List.mem_cons_of_mem _ ht', hcheck'⟩

end Track

namespace Flattening

variable {R : Type} [Scalar R]

theorem filterMap_id_absoluteAll {fps : Number R} {root : TimeScope R}
    {objects compiled way : List (Object R)} {p : List Nat}
    (hcompiled : absoluteAll fps Level.root root objects = .ok compiled)
    (hw : Object.way compiled p = some way) :
    way.filterMap Object.id = Address.trail "" (namesAt objects p) := by
  obtain ⟨before, hbefore, hids⟩ := way_of_absoluteAll hcompiled hw
  rw [Address.filterMap_id, hids, trail_namesAlong hbefore, namesAt, hbefore]
  rfl

/-- The ids on the way to a compiled object are what its names lead through, with clips found as
well. -/
theorem filterMap_id_resolveAllClips {fps : Number R} {root : TimeScope R} {settings : Settings R}
    {measurer : Measurer R} {objects compiled way way' : List (Object R)} {p : List Nat}
    (hcompiled : absoluteAll fps Level.root root objects = .ok compiled)
    (hw : Object.way compiled p = some way)
    (hclips : List.Forall₂ (fun o c => Object.resolveClips settings measurer o = .ok c) way way') :
    way'.filterMap Object.id = Address.trail "" (namesAt objects p) := by
  have halike := hclips.imp fun _ _ ho => (Object.resolveClips_alike ho).1
  rw [← filterMap_id_absoluteAll hcompiled hw, Address.filterMap_id, Object.map_id_of_alike halike,
    ← Address.filterMap_id]

/-- The tracks of a source are traced to the object that the source means. -/
theorem Source.Emits.traced {d : Disk} {fps : Number R} {root : TimeScope R}
    {objects compiled clipped : List (Object R)} {library : EffectLibrary R}
    {settings : Settings R} {measurer : Measurer R} {src : Source R} {before out : List (Track R)}
    (hcompiled : absoluteAll fps Level.root root objects = .ok compiled)
    (hids : (Address.ids compiled).Nodup)
    (hclipped : Object.resolveAllClips settings measurer compiled = .ok clipped)
    (hway : Object.way objects src.position = some src.way)
    (hemits : src.Emits d library fps root objects before)
    (hout : List.Forall₂ (fun t t' => Track.resolveClip settings measurer compiled t = .ok t')
      before out) :
    Traced fps root objects compiled clipped src out := by
  obtain ⟨c, hmeans, -, htargets⟩ := hemits.means
  obtain ⟨p, front, hp⟩ := hmeans.way hcompiled hway
  obtain ⟨last, hlast, hresolved⟩ := Object.way_resolveAllClips hclipped hp
  have htrail := filterMap_id_absoluteAll hcompiled hp
  have htrail' := filterMap_id_resolveAllClips hcompiled hp hresolved
  have hids' : (Address.ids clipped).Nodup := by
    rwa [Object.ids_resolveAllClips hclipped]
  obtain ⟨front', c', rfl, hfront, hc'⟩ := forall₂_concat_left hresolved
  refine ⟨p, c, c', front, front', hmeans, hp, hlast, ?_⟩
  intro t' ht'
  obtain ⟨t, ht, hclip⟩ := exists_related_of_mem hout ht'
  have htarget : c.id = some t'.target := by
    rw [(Track.resolveClip_eq_ok hclip).1]
    exact htargets t ht
  have htarget' : c'.id = some t'.target := (Object.resolveClips_alike hc').1.id.trans htarget
  refine ⟨htarget, htarget', Address.find_eq_some_iff hids hp htarget htrail,
    Address.find_eq_some_iff hids' hlast htarget' htrail', ?_⟩
  intro hdot
  rw [Track.check_unknownTarget]
  simpa using Address.find_eq_none_iff hids' hlast htarget' htrail' hdot

/-- If the tracks of some sources are traced, the check of them refuses only the target of an object
whose names cannot be told from its id. -/
theorem Traced.refused {fps : Number R} {root : TimeScope R}
    {objects compiled clipped : List (Object R)} {sources : List (Source R)}
    {outs : List (List (Track R))} {target property : String}
    (h : List.Forall₂ (Traced fps root objects compiled clipped) sources outs)
    (hrefused : Track.checkAll clipped outs.flatten = .error (.unknownTarget target property)) :
    ∃ p front o, Object.way clipped p = some (front ++ [o]) ∧ o.id = some target ∧
      ¬ Address.Addressable (namesAt objects p) := by
  obtain ⟨t, ht, hcheck⟩ := Track.checkAll_unknownTarget hrefused
  obtain ⟨hnone, rfl, -⟩ := Track.check_unknownTarget.mp hcheck
  obtain ⟨out, hout, ht⟩ := List.mem_flatten.mp ht
  obtain ⟨src, -, p, c, c', front, front', -, -, hp, hall⟩ := exists_related_of_mem h hout
  obtain ⟨-, hid, -, hfinds, -⟩ := hall t ht
  refine ⟨p, front', c', hp, hid, fun haddressable => ?_⟩
  cases hnone.symm.trans (hfinds.mpr haddressable)

/-- All that a tree which flattens animates is traced in it. The check of its tracks refuses a
target only if the names on the way down to some object cannot be told from its id. -/
theorem flatten_traced {d : Disk} {fps : Number R} {objects compiled clipped : List (Object R)}
    {entries : List (Entry R)} {speed : Option (Number R)} {tracks found : List (Track R)}
    {library library' : EffectLibrary R} {settings : Settings R} {measurer : Measurer R}
    (h : (flatten d fps objects entries speed).Yields library (compiled, tracks) library')
    (hclips : resolveClipLengths settings measurer compiled tracks = .ok (clipped, found)) :
    (∃ outs, found = outs.flatten ∧
      List.Forall₂ (Traced fps (TimeScope.root speed) objects compiled clipped)
        (sourcesOfAll objects entries) outs) ∧
    ∀ target property,
      Track.checkAll clipped found = .error (.unknownTarget target property) →
      ∃ p front o, Object.way clipped p = some (front ++ [o]) ∧ o.id = some target ∧
        ¬ Address.Addressable (namesAt objects p) := by
  obtain ⟨hcompiled, hids, emitted, rfl, hemitted⟩ := flatten_yields h
  obtain ⟨hclipped, hfound⟩ := resolveClipLengths_eq_ok hclips
  obtain ⟨outs, rfl, houts⟩ := forall₂_flatten_left hfound
  have hways : ∀ src ∈ sourcesOfAll objects entries,
      Object.way objects src.position = some src.way := fun src hsrc => (sourcesOfAll_spec hsrc).1
  have hall := forall₂_trans ((List.forall₂_and_left _ _).mpr ⟨hways, hemitted⟩) houts
  have htraced : List.Forall₂ (Traced fps (TimeScope.root speed) objects compiled clipped)
      (sourcesOfAll objects entries) outs := by
    refine hall.imp ?_
    intro src out hsource
    obtain ⟨before, ⟨hway, hemits⟩, hout⟩ := hsource
    exact hemits.traced hcompiled hids hclipped hway hout
  exact ⟨⟨outs, rfl, htraced⟩, fun _ _ hrefused => Traced.refused htraced hrefused⟩

/-- A square with an id. -/
def squareOf (id : String) : Object Rat :=
  .shape (.ofId (some id)) (.rect ⟨some (.int 4), some (.int 4), none, none, none⟩) []

/-- A movement of an object to the right. -/
def movement (target : String) : Track Rat :=
  ⟨target, "x", [⟨.number (.int 0), .number (.int 5), none, []⟩], []⟩

/-- The square in the group is moved by its own name, as the only object whose id ends in it. -/
theorem inner_square_traced :
    ∃ compiled clipped tracks found library',
      (flatten Disk.empty (.real 30) [.group (.ofId (some "g")) [squareOf "r"] .empty []]
        [.track (movement "r")] none).Yields ⟨[], []⟩ (compiled, tracks) library' ∧
      resolveClipLengths bareStudio.settings bareStudio.measurer compiled tracks =
        .ok (clipped, found) ∧
      found.map Track.target = ["g.r"] ∧
      ∃ outs, found = outs.flatten ∧
        List.Forall₂ (Traced (.real 30) (TimeScope.root none)
          [.group (.ofId (some "g")) [squareOf "r"] .empty []] compiled clipped)
          (sourcesOfAll [.group (.ofId (some "g")) [squareOf "r"] .empty []]
            [.track (movement "r")]) outs := by
  have hrun : ((flatten Disk.empty (.real 30)
      [.group (.ofId (some "g")) [squareOf "r"] .empty []] [.track (movement "r")] none).exec
      ⟨[], []⟩).1.toOption.any (fun (compiled, tracks) =>
        (resolveClipLengths bareStudio.settings bareStudio.measurer compiled
          tracks).toOption.any fun p => decide (p.2.map Track.target = ["g.r"])) = true := by
    decide +kernel
  obtain ⟨⟨compiled, tracks⟩, library', hrun, hclips⟩ := Run.yields_of_test _ hrun
  obtain ⟨⟨clipped, found⟩, hclips, htargets⟩ := (Option.any_eq_true _ _).mp hclips
  have hclips := toOption_eq_some.mp hclips
  exact ⟨compiled, clipped, tracks, found, library', hrun, hclips, of_decide_eq_true htargets,
    (flatten_traced hrun hclips).1⟩

/-- A square whose id has a dot is moved by its id, and yet the check of the tracks does not find
it. -/
theorem dotted_square_lost :
    ∃ compiled clipped tracks found library' c,
      Object.checkTree [squareOf "a.b"] = .ok () ∧
      (flatten Disk.empty (.real 30) [squareOf "a.b"] [.track (movement "a.b")] none).Yields
        ⟨[], []⟩ (compiled, tracks) library' ∧
      resolveTarget "a.b" compiled "" = .ok c ∧ c.id = some "a.b" ∧
      resolveClipLengths bareStudio.settings bareStudio.measurer compiled tracks =
        .ok (clipped, found) ∧
      Track.checkAll clipped found = .error (.unknownTarget "a.b" "x") := by
  have hrun : ((flatten Disk.empty (.real 30) [squareOf "a.b"] [.track (movement "a.b")] none).exec
      ⟨[], []⟩).1.toOption.any (fun (compiled, tracks) =>
        ((resolveTarget "a.b" compiled "").toOption.any fun c => decide (c.id = some "a.b")) &&
        ((resolveClipLengths bareStudio.settings bareStudio.measurer compiled
          tracks).toOption.any fun p =>
            decide (Track.checkAll p.1 p.2 = .error (.unknownTarget "a.b" "x")))) = true := by
    decide +kernel
  obtain ⟨⟨compiled, tracks⟩, library', hrun, htest⟩ := Run.yields_of_test _ hrun
  obtain ⟨htarget, hclips⟩ := Bool.and_eq_true_iff.mp htest
  obtain ⟨c, hc, hid⟩ := (Option.any_eq_true _ _).mp htarget
  obtain ⟨⟨clipped, found⟩, hclips, hcheck⟩ := (Option.any_eq_true _ _).mp hclips
  exact ⟨compiled, clipped, tracks, found, library', c, rfl, hrun, toOption_eq_some.mp hc,
    of_decide_eq_true hid, toOption_eq_some.mp hclips, of_decide_eq_true hcheck⟩

end Flattening

end Storyboard
