import Storyboard.Object.Check
import Storyboard.Proofs.Address
import Storyboard.Proofs.Run

namespace Storyboard.Object

variable {R : Type} [Scalar R]

theorem checkTree_eq_ok {objects : List (Object R)} {u : Unit} :
    checkTree objects = .ok u ↔ treeProblems objects "" = [] := by
  rw [checkTree]
  cases treeProblems objects "" <;> simp

/-- What the check of an object asks for. -/
structure Valid (o : Object R) : Prop where
  complete : o.missingProperties = []
  sizes : ∀ name n, (name, some (Json.num n)) ∈ o.sizes → n.lt (.int 0) = false
  opacity : ∀ n, o.base.opacity = some n → ((Number.int 0).le n && n.le (.int 1)) = true
  speed : ∀ v, o.groupInfo.speed = some v → (Scalar.exact v).le (.finite 0) = false
  transition : o.groupInfo.transition.isSome → o.id.isSome
  leave : ∀ t, o.groupInfo.transition = some t → t.leave.isSome →
    o.groupInfo.duration.isSome
  component : o.kind = "component" → o.id.isSome

theorem filterMap_negativeSize {id : String} {sizes : List (String × Option (Json R))} :
    sizes.filterMap (negativeSize id) = [] ↔
      ∀ name n, (name, some (Json.num n)) ∈ sizes → n.lt (.int 0) = false := by
  rw [List.filterMap_eq_nil_iff]
  constructor
  · intro h name n hmem
    have := h _ hmem
    simpa [negativeSize] using this
  · rintro h ⟨name, _ | j⟩ hmem
    · rfl
    · cases j with
      | num n => simp [negativeSize, h name n hmem]
      | null | bool | str | arr | obj => rfl

theorem groupProblems_eq_nil_iff {id : String} {hasId : Bool} {info : GroupInfo R} :
    groupProblems id hasId info = [] ↔
      (∀ v, info.speed = some v → (Scalar.exact v).le (.finite 0) = false) ∧
        (info.transition.isSome → hasId = true) ∧
        ∀ t, info.transition = some t → t.leave.isSome → info.duration.isSome := by
  rw [groupProblems, List.append_eq_nil_iff]
  refine and_congr ?_ ?_
  · cases info.speed <;> simp
  · cases info.transition with
    | none => simp
    | some t => cases hasId <;> cases t.leave <;> cases info.duration <;> simp

theorem opacity_eq_nil_iff {id : String} {opacity : Option (Number R)} :
    (match opacity with
      | some n => if (Number.int 0).le n && n.le (.int 1) then []
        else [ObjectProblem.opacity id n.text]
      | none => []) = [] ↔
      ∀ n, opacity = some n → ((Number.int 0).le n && n.le (.int 1)) = true := by
  cases opacity <;> simp

/-- An object has no problems exactly if it is valid. -/
theorem problems_eq_nil_iff_valid {o : Object R} : o.problems = [] ↔ o.Valid := by
  have hcommon {own : List ObjectProblem} (hown : own = [] ↔
      (∀ v, o.groupInfo.speed = some v → (Scalar.exact v).le (.finite 0) = false) ∧
        (o.groupInfo.transition.isSome → o.id.isSome) ∧
        (∀ t, o.groupInfo.transition = some t → t.leave.isSome →
          o.groupInfo.duration.isSome) ∧ (o.kind = "component" → o.id.isSome)) :
      o.missingProperties.map (.requires o.shownId o.kind) ++
        o.sizes.filterMap (negativeSize o.shownId) ++
        (match o.base.opacity with
          | some n => if (Number.int 0).le n && n.le (.int 1) then []
            else [ObjectProblem.opacity o.shownId n.text]
          | none => []) ++ own = [] ↔ o.Valid := by
    rw [List.append_eq_nil_iff, List.append_eq_nil_iff, List.append_eq_nil_iff,
      List.map_eq_nil_iff, filterMap_negativeSize, opacity_eq_nil_iff, hown]
    constructor
    · rintro ⟨⟨⟨hcomplete, hsizes⟩, hopacity⟩, hspeed, htransition, hleave, hcomponent⟩
      exact ⟨hcomplete, hsizes, hopacity, hspeed, htransition, hleave, hcomponent⟩
    · intro h
      exact ⟨⟨⟨h.complete, h.sizes⟩, h.opacity⟩, h.speed, h.transition, h.leave, h.component⟩
  cases o with
  | group b cs info e =>
    refine hcommon (groupProblems_eq_nil_iff.trans ?_)
    simp [groupInfo, id, base, kind]
  | shape b s e =>
    refine hcommon ?_
    cases s <;> simp [groupInfo, GroupInfo.empty, kind, Shape.kind]
  | reference b r e =>
    refine hcommon ?_
    obtain ⟨k, source, start, duration, transition⟩ := r
    cases k with
    | component params =>
      cases hb : b.id <;>
        simp [groupInfo, GroupInfo.empty, kind, ReferenceKind.name, id, base, hb]
    | scene => simp [groupInfo, GroupInfo.empty, kind, ReferenceKind.name]

omit [Scalar R] in
theorem duplicateIds_eq_nil {scope : String} {seen : List String} {objects : List (Object R)} :
    duplicateIds scope seen objects = [] ↔
      (objects.filterMap Object.id).Nodup ∧ ∀ k ∈ objects.filterMap Object.id, k ∉ seen := by
  induction objects generalizing seen with
  | nil => simp [duplicateIds]
  | cons o rest ih =>
    rw [duplicateIds]
    cases hid : o.id with
    | none => simp only [List.filterMap_cons_none hid, ih]
    | some k =>
      rw [List.filterMap_cons_some hid, List.nodup_cons]
      dsimp only
      split
      · rename_i hseen
        simp_all
      · rename_i hfree
        rw [ih]
        simp only [List.contains_iff_mem] at hfree
        simp only [List.mem_cons, not_or, forall_eq_or_imp]
        constructor
        · rintro ⟨hnodup, hnot⟩
          exact ⟨⟨fun hk => (hnot k hk).1 rfl, hnodup⟩, hfree, fun x hx => (hnot x hx).2⟩
        · rintro ⟨⟨hk, hnodup⟩, -, hnot⟩
          exact ⟨hnodup, fun x hx => ⟨fun he => hk (he ▸ hx), hnot x hx⟩⟩

/-- Objects under no two of which, in one list, stands the same id. -/
def Apart (objects : List (Object R)) : Prop := (objects.filterMap Object.id).Nodup

theorem deepProblems_eq_nil {scope : String} {o : Object R} :
    deepProblems scope o = [] ↔ o.Valid ∧ Apart o.children ∧
      deepProblemsOfAll (childScope scope o) o.children = [] := by
  cases o with
  | group b cs info e =>
    rw [deepProblems, List.append_eq_nil_iff, List.append_eq_nil_iff, problems_eq_nil_iff_valid,
      duplicateIds_eq_nil]
    simp [Apart, children]
  | shape b s e | reference b r e =>
    rw [deepProblems, problems_eq_nil_iff_valid]
    simp [Apart, children, deepProblemsOfAll]

theorem deepProblemsOfAll_eq_nil_iff {scope : String} {objects : List (Object R)} :
    deepProblemsOfAll scope objects = [] ↔
      ∀ o ∈ Address.walk objects, o.Valid ∧ Apart o.children := by
  induction objects using descent generalizing scope with
  | nil => simp [deepProblemsOfAll, Address.walk]
  | cons o rest ihChildren ihRest =>
    rw [deepProblemsOfAll, List.append_eq_nil_iff, deepProblems_eq_nil, ihChildren, ihRest,
      Address.walk_cons, List.cons_append, List.forall_mem_cons, List.forall_mem_append]
    tauto

/-- A tree has no problems exactly if its objects are valid and no two in one list share an id. -/
theorem treeProblems_eq_nil_iff {scope : String} {objects : List (Object R)} :
    treeProblems objects scope = [] ↔
      Apart objects ∧ ∀ o ∈ Address.walk objects, o.Valid ∧ Apart o.children := by
  rw [treeProblems, List.append_eq_nil_iff, duplicateIds_eq_nil, deepProblemsOfAll_eq_nil_iff]
  simp [Apart]

theorem valid_of_checkTree {objects : List (Object R)} {o : Object R} {u : Unit}
    (hcheck : checkTree objects = .ok u) (h : o ∈ Address.walk objects) : o.Valid :=
  ((treeProblems_eq_nil_iff.mp (checkTree_eq_ok.mp hcheck)).2 o h).1

/-- In a tree with distinct ids only single objects can have problems. -/
theorem treeProblems_of_nodup {scope : String} {objects : List (Object R)}
    (hids : (Address.ids objects).Nodup) (hvalid : ∀ o ∈ Address.walk objects, o.Valid) :
    treeProblems objects scope = [] := by
  have hchildren {o : Object R} (ho : o ∈ Address.walk objects) :
      (Address.ids o.children).Sublist (Address.ids objects) :=
    (Address.walk_children_sublist_of_mem_walk ho).filterMap _
  refine treeProblems_eq_nil_iff.mpr
    ⟨hids.sublist (Address.filterMap_id_sublist objects), fun o ho => ⟨hvalid o ho, ?_⟩⟩
  exact hids.sublist ((Address.filterMap_id_sublist o.children).trans (hchildren ho))

end Storyboard.Object
