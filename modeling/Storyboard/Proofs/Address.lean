import Mathlib.Data.List.Pairwise
import Mathlib.Tactic.ByContra
import Storyboard.Address
import Storyboard.Proofs.Position

namespace Storyboard.Address

variable {R : Type}

theorem under_eq (o : Object R) : under o = o :: walk o.children := by
  cases o with
  | group b cs info e => rw [under]; rfl
  | shape b s e => rw [under]; rfl
  | reference b r e => rw [under]; rfl

theorem walk_cons (o : Object R) (rest : List (Object R)) :
    walk (o :: rest) = o :: walk o.children ++ walk rest := by
  rw [walk, under_eq]

theorem mem_walk_of_way {objects way : List (Object R)} {p : List Nat} {o : Object R}
    (hw : Object.way objects p = some way) (ho : o ∈ way) : o ∈ walk objects := by
  induction objects using Object.descent generalizing p way with
  | nil =>
    cases p with
    | nil => simp_all [Object.way]
    | cons i p => simp [Object.way, wayDown] at hw
  | cons x rest ihChildren ihRest =>
    rw [walk_cons]
    cases p with
    | nil => simp_all [Object.way]
    | cons i p =>
      obtain ⟨y, tail, hy, htail, rfl⟩ := (wayDown_cons_eq_some _).mp hw
      cases i with
      | succ i =>
        refine List.mem_append_right _ (ihRest (p := i :: p) ?_ ho)
        exact (wayDown_cons_eq_some _).mpr ⟨y, tail, hy, htail, rfl⟩
      | zero =>
        obtain rfl : x = y := by simpa using hy
        refine List.mem_append_left _ ?_
        rcases List.mem_cons.mp ho with rfl | ho
        · exact List.mem_cons_self
        · exact List.mem_cons_of_mem _ (ihChildren htail ho)

theorem mem_walk {objects : List (Object R)} {x : Object R} (hx : x ∈ objects) :
    x ∈ walk objects := by
  induction objects with
  | nil => simp at hx
  | cons o rest ih =>
    rw [walk_cons]
    rcases List.mem_cons.mp hx with rfl | hx
    · exact List.mem_cons_self
    · exact List.mem_append_right _ (ih hx)

theorem walk_children_sublist {objects : List (Object R)} {x : Object R} (hx : x ∈ objects) :
    (walk x.children).Sublist (walk objects) := by
  induction objects with
  | nil => simp at hx
  | cons o rest ih =>
    rw [walk_cons]
    rcases List.mem_cons.mp hx with rfl | hx
    · exact (List.sublist_cons_self _ _).trans (List.sublist_append_left _ _)
    · exact (ih hx).trans (List.sublist_append_right _ _)

theorem walk_opened_sublist {objects way : List (Object R)} {p : List Nat}
    (hw : Object.way objects p = some way) :
    (walk (opened Object.children objects way)).Sublist (walk objects) := by
  induction p generalizing objects way with
  | nil =>
    cases hw
    exact .refl _
  | cons i p ih =>
    obtain ⟨x, rest, hx, hrest, rfl⟩ := (wayDown_cons_eq_some _).mp hw
    rw [opened_cons]
    exact (ih hrest).trans (walk_children_sublist (List.mem_of_getElem? hx))

theorem walk_children_sublist_of_mem_walk {objects : List (Object R)} {x : Object R}
    (hx : x ∈ walk objects) : (walk x.children).Sublist (walk objects) := by
  induction objects using Object.descent with
  | nil => simp [walk] at hx
  | cons y rest ihChildren ihRest =>
    rw [walk_cons, List.cons_append] at hx ⊢
    rcases List.mem_cons.mp hx with rfl | hx
    · exact (List.sublist_append_left _ _).cons _
    · rcases List.mem_append.mp hx with hx | hx
      · exact ((ihChildren hx).trans (List.sublist_append_left _ _)).cons _
      · exact ((ihRest hx).trans (List.sublist_append_right _ _)).cons _

theorem mem_walk_of_mem_children {objects : List (Object R)} {x o : Object R}
    (hx : x ∈ walk objects) (ho : o ∈ walk x.children) : o ∈ walk objects :=
  (walk_children_sublist_of_mem_walk hx).subset ho

theorem level_subset_walk (objects : List (Object R)) : level objects ⊆ walk objects := by
  induction objects using Object.forest with
  | nil => exact fun _ h => h
  | shape b s e rest ih => exact List.cons_subset_cons _ ih
  | reference b r e rest ih => exact List.cons_subset_cons _ ih
  | group b cs info e rest ihChildren ihRest =>
    have hmembers : members (.group b cs info e) ⊆ under (.group b cs info e) := by
      rw [members]
      split
      · exact List.subset_cons_of_subset _ ihChildren
      · intro o ho
        obtain rfl := List.mem_singleton.mp ho
        exact List.mem_cons_self
    exact List.append_subset.mpr ⟨List.subset_append_of_subset_left _ hmembers,
      List.subset_append_of_subset_right _ ihRest⟩

theorem members_subset_level {objects : List (Object R)} {x : Object R} (hx : x ∈ objects) :
    members x ⊆ level objects := by
  induction objects with
  | nil => simp at hx
  | cons o rest ih =>
    rcases List.mem_cons.mp hx with rfl | hx
    · exact List.subset_append_left _ _
    · exact List.subset_append_of_subset_right _ (ih hx)

theorem mem_members {x : Object R} {k : String} (hk : x.id = some k) : x ∈ members x := by
  cases x with
  | group b cs info e =>
    have hb : b.id = some k := hk
    simp [members, hb]
  | shape b s e => simp [members]
  | reference b r e => simp [members]

theorem level_children_subset_members {x : Object R} (hx : x.id = none) :
    level x.children ⊆ members x := by
  cases x with
  | group b cs info e =>
    have hb : b.id = none := hx
    simp [members, hb, Object.children]
  | shape b s e => simp [level, Object.children]
  | reference b r e => simp [level, Object.children]

/-- The ids in a tree. -/
def ids (objects : List (Object R)) : List String := (walk objects).filterMap Object.id

@[simp] theorem ids_nil : ids ([] : List (Object R)) = [] := rfl

theorem ids_cons (o : Object R) (rest : List (Object R)) :
    ids (o :: rest) = o.id.toList ++ ids o.children ++ ids rest := by
  cases h : o.id <;> simp [ids, walk_cons, h]

theorem filterMap_id_sublist (objects : List (Object R)) :
    (objects.filterMap Object.id).Sublist (ids objects) := by
  induction objects with
  | nil => exact .slnil
  | cons o rest ih =>
    rw [ids_cons]
    cases hid : o.id with
    | none =>
      rw [List.filterMap_cons_none hid]
      exact ih.trans (List.sublist_append_right _ _)
    | some k =>
      rw [List.filterMap_cons_some hid]
      exact (ih.trans (List.sublist_append_right _ _)).cons_cons k

/-- In a tree with distinct ids an object is known by its id. -/
theorem eq_of_id_eq {objects : List (Object R)} (hids : (ids objects).Nodup) {o o' : Object R}
    (ho : o ∈ walk objects) (ho' : o' ∈ walk objects) {k : String} (hk : o.id = some k)
    (hk' : o'.id = some k) : o = o' := by
  by_contra hne
  have hpairs := List.pairwise_filterMap.mp hids
  have : Std.Symm fun a b : Object R => ∀ x, a.id = some x → ∀ y, b.id = some y → x ≠ y :=
    ⟨fun a b h x hx y hy => (h y hy x hx).symm⟩
  exact hpairs.forall ho ho' hne k hk k hk' rfl

/-- In a tree with distinct ids, among some of its objects one is found by its id. -/
theorem find?_id_eq_some {objects part : List (Object R)} (hids : (ids objects).Nodup)
    (hsome : part ⊆ walk objects) {o : Object R} {k : String} (ho : o ∈ part)
    (hk : o.id = some k) : part.find? (fun o => o.id == some k) = some o := by
  have hfound : (part.find? fun o => o.id == some k).isSome := by
    rw [List.find?_isSome]
    exact ⟨o, ho, by simp [hk]⟩
  obtain ⟨y, hy⟩ := Option.isSome_iff_exists.mp hfound
  have hid : y.id = some k := by simpa using List.find?_some hy
  have hmem : y ∈ walk objects := hsome (List.mem_of_find?_eq_some hy)
  rw [hy, eq_of_id_eq hids hmem (hsome ho) hid hk]

theorem findLocal_eq_some {objects : List (Object R)} (hids : (ids objects).Nodup) {o : Object R}
    {k : String} (ho : o ∈ level objects) (hk : o.id = some k) :
    findLocal objects k = some o :=
  find?_id_eq_some hids (level_subset_walk objects) ho hk

/-- The paths that are passed from a scope on when names are joined to it one after another. -/
def trail (scope : String) : List String → List String
  | [] => []
  | name :: rest => join scope name :: trail (join scope name) rest

theorem follow_cons {objects : List (Object R)} {scope name : String} {rest : List String}
    (hrest : rest ≠ []) :
    follow objects scope (name :: rest) =
      (findLocal objects (join scope name)).bind fun o =>
        follow o.children (join scope name) rest := by
  cases rest with
  | nil => exact absurd rfl hrest
  | cons next more =>
    simp only [follow]
    cases findLocal objects (join scope name) <;> rfl

theorem follow_mono {objects others : List (Object R)} {scope : String} {names : List String}
    {o : Object R} (h : follow others scope names = some o)
    (hlocal : ∀ k y, findLocal others k = some y → findLocal objects k = some y) :
    follow objects scope names = some o := by
  cases names with
  | nil => simp [follow] at h
  | cons name rest =>
    by_cases hrest : rest = []
    · subst hrest
      exact hlocal _ _ h
    · rw [follow_cons hrest] at h ⊢
      obtain ⟨y, hy, h⟩ := Option.bind_eq_some_iff.mp h
      exact Option.bind_eq_some_iff.mpr ⟨y, hlocal _ _ hy, h⟩

/-- In a tree with distinct ids, names that make up the ids on the way down to an object lead to
it. -/
theorem follow_of_way {objects front : List (Object R)} {scope : String} {names : List String}
    {q : List Nat} {c : Object R} (hids : (ids objects).Nodup)
    (hw : Object.way objects q = some (front ++ [c])) (hc : c.id.isSome)
    (hnames : (front ++ [c]).filterMap Object.id = trail scope names) :
    follow objects scope names = some c := by
  obtain ⟨k, hk⟩ := Option.isSome_iff_exists.mp hc
  induction q generalizing objects front scope names with
  | nil => simp [Object.way] at hw
  | cons i q ih =>
    rcases (wayDown_cons_eq_append _).mp hw with ⟨rfl, rfl, hi⟩ | ⟨x, rest, rfl, hi, hrest⟩
    · have hlevel := members_subset_level (List.mem_of_getElem? hi) (mem_members hk)
      cases names with
      | nil => simp [trail, hk] at hnames
      | cons name more =>
        obtain ⟨rfl, hmore⟩ : k = join scope name ∧ [] = trail (join scope name) more := by
          simpa [trail, hk] using hnames
        cases more with
        | nil => exact findLocal_eq_some hids hlevel hk
        | cons next more => cases hmore
    · have hinner : (ids x.children).Nodup :=
        hids.sublist ((walk_children_sublist (List.mem_of_getElem? hi)).filterMap _)
      have hmembers := members_subset_level (List.mem_of_getElem? hi)
      cases hx : x.id with
      | none =>
        -- A group without an id is looked through: nothing is joined to the scope.
        have hnames' : (rest ++ [c]).filterMap Object.id = trail scope names := by
          simpa [hx] using hnames
        refine follow_mono (ih hinner hrest hnames') ?_
        intro k y hy
        have hlevel := level_children_subset_members hx (List.mem_of_find?_eq_some hy)
        exact findLocal_eq_some hids (hmembers hlevel) (by simpa using List.find?_some hy)
      | some k' =>
        cases names with
        | nil => simp [trail, hx] at hnames
        | cons name more =>
          rw [List.cons_append, List.filterMap_cons_some hx, trail] at hnames
          obtain ⟨rfl, hmore⟩ := List.cons.inj hnames
          have hne : more ≠ [] := by
            intro hnil
            simp [hnil, trail, hk] at hmore
          rw [follow_cons hne, findLocal_eq_some hids (hmembers (mem_members hx)) hx]
          exact ih hinner hrest hmore

/-- What is found has the names joined to the scope as its id. -/
theorem id_of_follow {objects : List (Object R)} {scope : String} {names : List String}
    {o : Object R} (h : follow objects scope names = some o) :
    o.id = some (names.foldl join scope) ∧ o ∈ walk objects := by
  induction names generalizing objects scope with
  | nil => simp [follow] at h
  | cons name rest ih =>
    by_cases hrest : rest = []
    · subst hrest
      have hid : o.id = some (join scope name) := by simpa using List.find?_some h
      exact ⟨hid, level_subset_walk objects (List.mem_of_find?_eq_some h)⟩
    · rw [follow_cons hrest] at h
      obtain ⟨y, hy, h⟩ := Option.bind_eq_some_iff.mp h
      obtain ⟨hid, hmem⟩ := ih h
      have hy := level_subset_walk objects (List.mem_of_find?_eq_some hy)
      exact ⟨hid, mem_walk_of_mem_children hy hmem⟩

end Storyboard.Address
