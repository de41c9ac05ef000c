import Storyboard.Proofs.Flattening.Addressing

namespace Storyboard

namespace Address

open Flattening (Undotted)

/-- A name that is not empty and has no dot. -/
def Plain (s : String) : Prop := s ≠ "" ∧ Undotted s

instance : DecidablePred Plain := fun s => inferInstanceAs (Decidable (s ≠ "" ∧ Undotted s))

theorem foldl_join_of_ne (scope : String) {names : List String} (hne : names ≠ [])
    (hall : ∀ s ∈ names, s ≠ "") : names.foldl join scope = join scope (".".intercalate names) := by
  by_cases hscope : scope = ""
  · subst hscope
    have hkept : names.dropWhile (· = "") = names := by
      cases names with
      | nil => rfl
      | cons s rest => exact List.dropWhile_cons_of_neg (by simpa using hall s List.mem_cons_self)
    rw [foldl_join_root, hkept, join_empty]
  · rw [foldl_join hscope hne, join_of_ne hscope]

/-- Where the paths that are passed are parted, so are the names. -/
theorem trail_eq_append {scope : String} {names front behind : List String}
    (h : trail scope names = front ++ behind) :
    ∃ outer inner, names = outer ++ inner ∧ front = trail scope outer ∧
      behind = trail (outer.foldl join scope) inner := by
  induction front generalizing scope names with
  | nil => exact ⟨[], names, rfl, rfl, h.symm⟩
  | cons k front ih =>
    cases names with
    | nil => simp [trail] at h
    | cons name rest =>
      obtain ⟨rfl, hrest⟩ := List.cons.inj h
      obtain ⟨outer, inner, rfl, hfront, hbehind⟩ := ih hrest
      exact ⟨name :: outer, inner, rfl, congrArg (join scope name :: ·) hfront, hbehind⟩

variable {R : Type} {objects : List (Object R)} {o : Object R} {scope k : String}

theorem find?_id_eq_some_iff (hids : (ids objects).Nodup) :
    (walk objects).find? (fun o => o.id == some k) = some o ↔
      o ∈ walk objects ∧ o.id = some k := by
  constructor
  · intro h
    exact ⟨List.mem_of_find?_eq_some h, by simpa using List.find?_some h⟩
  · intro h
    exact find?_id_eq_some hids (List.Subset.refl _) h.1 h.2

/-- The ids on every way down from a scope are joined from plain names. -/
def Joined (scope : String) (objects : List (Object R)) : Prop :=
  ∀ p way, Object.way objects p = some way →
    ∃ names, (∀ s ∈ names, Plain s) ∧ way.filterMap Object.id = trail scope names

/-- The id at the end of a way down is joined from the names on the way. -/
theorem id_of_trail {front : List (Object R)} {names : List String} (hk : o.id = some k)
    (hplain : ∀ s ∈ names, Plain s)
    (htrail : (front ++ [o]).filterMap Object.id = trail scope names) :
    names ≠ [] ∧ k = join scope (".".intercalate names) := by
  have hne : names ≠ [] := by
    rintro rfl
    simp [trail, hk] at htrail
  have hlast := congrArg List.getLast? htrail
  rw [getLast?_trail hne, foldl_join_of_ne scope hne fun s hs => (hplain s hs).1] at hlast
  exact ⟨hne, by simpa [hk] using hlast⟩

/-- A path leads to the object that has it behind the scope as its id, and to no other. -/
theorem Joined.find_eq_some_iff (h : Joined scope objects) (hids : (ids objects).Nodup)
    {path : String} : find objects path scope = some o ↔
      o ∈ walk objects ∧ o.id = some (join scope path) := by
  constructor
  · intro hfind
    obtain ⟨hid, hmem⟩ := id_of_follow hfind
    -- The segments are the names on the way down, so none of them is empty.
    obtain ⟨p, front, hw, htrail⟩ := way_of_follow hfind
    obtain ⟨names, hplain, hnames⟩ := h p _ hw
    obtain rfl : segments path = names := trail_injective scope (htrail.symm.trans hnames)
    refine ⟨hmem, ?_⟩
    rw [hid, foldl_join_of_ne scope (segments_ne_nil path) fun s hs => (hplain s hs).1,
      intercalate_segments]
  · intro hat
    obtain ⟨hmem, hid⟩ := hat
    obtain ⟨p, front, hw⟩ := way_of_mem_walk hmem
    obtain ⟨names, hplain, htrail⟩ := h p _ hw
    obtain ⟨hne, hjoin⟩ := id_of_trail hid hplain htrail
    have hpath : path = ".".intercalate names := join_right_injective scope hjoin
    have hsegments : segments path = names := by
      rw [hpath]
      exact segments_intercalate hne fun s hs => (hplain s hs).2
    rw [find, hsegments]
    exact follow_of_way hids hw (by simp [hid]) htrail

theorem Joined.find_eq (h : Joined scope objects) (hids : (ids objects).Nodup) (path : String) :
    find objects path scope = (walk objects).find? fun o => o.id == some (join scope path) := by
  refine Option.ext fun o => ?_
  rw [h.find_eq_some_iff hids, find?_id_eq_some_iff hids]

end Address

namespace Flattening

variable {R : Type}

mutual

/-- The names of an object and of all that it holds: ids behind the prefixes that flattening takes
away. -/
def Level.namesUnder (l : Level) : Object R → List String
  | .shape b _ _ => (b.id.map (localId l.lead)).toList
  | .reference b _ _ => (b.id.map (localId l.lead)).toList
  | .group b cs info e =>
    (b.id.map (localId l.lead)).toList ++ (l.inside (.group b cs info e)).namesIn cs

/-- The names of all objects of a tree. -/
def Level.namesIn (l : Level) : List (Object R) → List String
  | [] => []
  | o :: rest => l.namesUnder o ++ l.namesIn rest

end

theorem Level.namesUnder_eq (l : Level) (o : Object R) : l.namesUnder o =
    (o.id.map (localId l.lead)).toList ++ (l.inside o).namesIn o.children := by
  cases o with
  | group b cs info e => rfl
  | shape b s e | reference b r e => exact (List.append_nil _).symm

theorem Level.namesUnder_subset {l : Level} {objects : List (Object R)} {o : Object R}
    (ho : o ∈ objects) : l.namesUnder o ⊆ l.namesIn objects := by
  induction objects with
  | nil => simp at ho
  | cons x rest ih =>
    rcases List.mem_cons.mp ho with rfl | ho
    · exact List.subset_append_left _ _
    · exact List.subset_append_of_subset_right _ (ih ho)

theorem Level.namesAlong_subset {l : Level} {objects way : List (Object R)} {p : List Nat}
    (hw : Object.way objects p = some way) : l.namesAlong way ⊆ l.namesIn objects := by
  induction p generalizing l objects way with
  | nil =>
    cases hw
    exact List.nil_subset _
  | cons i p ih =>
    obtain ⟨o, rest, ho, hrest, rfl⟩ := (wayDown_cons_eq_some _).mp hw
    have hown : (o.id.map (localId l.lead)).toList ⊆ l.namesUnder o := by
      rw [Level.namesUnder_eq]
      exact List.subset_append_left _ _
    have hinner : (l.inside o).namesAlong rest ⊆ l.namesUnder o := by
      rw [Level.namesUnder_eq]
      exact List.subset_append_of_subset_right _ (ih hrest)
    have hunder : l.namesUnder o ⊆ l.namesIn objects :=
      Level.namesUnder_subset (List.mem_of_getElem? ho)
    exact List.append_subset.mpr
      ⟨List.Subset.trans hown hunder, List.Subset.trans hinner hunder⟩

/-- The names at, around and below a position are plain. -/
def PlainThrough (objects : List (Object R)) (p : List Nat) : Prop :=
  ∀ q, ∀ s ∈ namesAt objects (p ++ q), Address.Plain s

theorem plainThrough_of_namesIn {objects : List (Object R)}
    (h : ∀ s ∈ Level.root.namesIn objects, Address.Plain s) (p : List Nat) :
    PlainThrough objects p := by
  intro q s hs
  rw [namesAt] at hs
  cases hw : Object.way objects (p ++ q) with
  | none => simp [hw] at hs
  | some way =>
    rw [hw] at hs
    exact h s (Level.namesAlong_subset hw hs)

/-- The path inside the last object of a way down is joined from the names on the way. -/
theorem foldl_innerPath {scope : String} {way : List (Object R)} {names : List String}
    (h : way.filterMap Object.id = Address.trail scope names) :
    (way.map Object.id).foldl innerPath scope = names.foldl Address.join scope := by
  induction way generalizing scope names with
  | nil =>
    cases names with
    | nil => rfl
    | cons s rest => simp [Address.trail] at h
  | cons o rest ih =>
    cases hid : o.id with
    | none =>
      rw [List.filterMap_cons_none hid] at h
      rw [List.map_cons, List.foldl_cons, hid]
      exact ih h
    | some k =>
      rw [List.filterMap_cons_some hid] at h
      cases names with
      | nil => simp [Address.trail] at h
      | cons s others =>
        obtain ⟨rfl, hrest⟩ := List.cons.inj h
        rw [List.map_cons, List.foldl_cons, hid, Address.innerPath_join, List.foldl_cons]
        exact ih hrest

variable [Scalar R] {fps : Number R} {root : TimeScope R} {objects compiled way : List (Object R)}
  {p : List Nat}

/-- In a compiled tree the ids below a way down are joined to the path there. -/
theorem joined_opened (hcompiled : absoluteAll fps Level.root root objects = .ok compiled)
    (hw : Object.way compiled p = some way) (hnames : PlainThrough objects p) :
    Address.Joined (scopeOf way) (opened Object.children compiled way) := by
  intro q inner hinner
  have hall : Object.way compiled (p ++ q) = some (way ++ inner) :=
    (wayDown_append _).mpr ⟨way, inner, hw, hinner, rfl⟩
  have htrail := filterMap_id_absoluteAll hcompiled hall
  rw [List.filterMap_append] at htrail
  obtain ⟨around, names, hsplit, hway, hbelow⟩ := Address.trail_eq_append htrail.symm
  refine ⟨names, fun s hs => hnames q s ?_, ?_⟩
  · rw [hsplit]
    exact List.mem_append_right _ hs
  · rw [hbelow, scopeOf, foldl_innerPath hway]

/-- In a tree that flattens, with plain names, an object is found by its full path and by nothing
else. -/
theorem find_flattened {d : Disk} {entries : List (Entry R)} {speed : Option (Number R)}
    {tracks : List (Track R)} {library library' : EffectLibrary R}
    (h : (flatten d fps objects entries speed).Yields library (compiled, tracks) library')
    (hnames : PlainThrough objects []) :
    (∀ path, Address.find compiled path "" =
      (Address.walk compiled).find? fun o => o.id == some path) ∧
    (∀ path o, Address.find compiled path "" = some o ↔
      o ∈ Address.walk compiled ∧ o.id = some path) ∧
    ∀ path, Address.find compiled path "" = none ↔ path ∉ Address.ids compiled := by
  obtain ⟨hcompiled, hids, -⟩ := flatten_yields h
  have hjoined : Address.Joined "" compiled := joined_opened (p := []) hcompiled rfl hnames
  have hfound (path : String) (o : Object R) : Address.find compiled path "" = some o ↔
      o ∈ Address.walk compiled ∧ o.id = some path := hjoined.find_eq_some_iff hids
  refine ⟨hjoined.find_eq hids, hfound, fun path => ?_⟩
  rw [Option.eq_none_iff_forall_ne_some, Address.ids, List.mem_filterMap, not_exists]
  exact forall_congr' fun o => not_congr (hfound path o)

/-- A square in a group in a group without an id. -/
def withinUnnamed : List (Object Rat) :=
  [.group (.ofId (some "g"))
    [.group (.ofId none) [.group (.ofId (some "h")) [squareOf "r"] .empty []] .empty []] .empty []]

/-- The group without an id leaves no trace in the path of the square. -/
theorem withinUnnamed_found :
    ∃ compiled tracks library',
      (flatten Disk.empty (.real 30) withinUnnamed [.track (movement "g.h.r")] none).Yields
        ⟨[], []⟩ (compiled, tracks) library' ∧
      PlainThrough withinUnnamed [] ∧ Address.ids compiled = ["g", "g.h", "g.h.r"] ∧
      (∃ o, Address.find compiled "g.h.r" "" = some o ∧ o.id = some "g.h.r") ∧
      Address.find compiled "g..r" "" = none := by
  have hrun : ((flatten Disk.empty (.real 30) withinUnnamed [.track (movement "g.h.r")] none).exec
      ⟨[], []⟩).1.toOption.any (fun p => decide (Address.ids p.1 = ["g", "g.h", "g.h.r"])) =
      true := by
    decide +kernel
  obtain ⟨⟨compiled, tracks⟩, library', hrun, htest⟩ := Run.yields_of_test _ hrun
  have hids : Address.ids compiled = ["g", "g.h", "g.h.r"] := of_decide_eq_true htest
  have hplain : PlainThrough withinUnnamed [] :=
    plainThrough_of_namesIn (by decide +kernel) []
  obtain ⟨-, hfound, hnone⟩ := find_flattened hrun hplain
  refine ⟨compiled, tracks, library', hrun, hplain, hids, ?_, ?_⟩
  · have hmem : "g.h.r" ∈ Address.ids compiled := by simp [hids]
    obtain ⟨o, ho, hid⟩ := List.mem_filterMap.mp hmem
    exact ⟨o, (hfound "g.h.r" o).mpr ⟨ho, hid⟩, hid⟩
  · exact (hnone "g..r").mpr (by simp [hids])

end Flattening

end Storyboard
