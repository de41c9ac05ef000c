import Mathlib.Tactic.Tauto
import Storyboard.Proofs.Checks
import Storyboard.Proofs.Compilation
import Storyboard.Track.Check

namespace Storyboard

variable {R : Type} [Scalar R]

def GroupInfo.steady (info : GroupInfo R) : GroupInfo R :=
  { info with speed := info.speed.map fun _ => Scalar.const 1 0 }

namespace Object

mutual

/-- An object in which every declared speed is one. -/
def steady : Object R → Object R
  | .group b cs info e => .group b (steadyAll cs) info.steady e
  | .shape b s e => .shape b s e
  | .reference b r e => .reference b r e

def steadyAll : List (Object R) → List (Object R)
  | [] => []
  | o :: rest => steady o :: steadyAll rest

end

@[simp] theorem steady_base (o : Object R) : o.steady.base = o.base := by
  cases o <;> rfl

@[simp] theorem steady_id (o : Object R) : o.steady.id = o.id := by
  rw [id, steady_base, id]

@[simp] theorem steady_extras (o : Object R) : o.steady.extras = o.extras := by
  cases o <;> rfl

@[simp] theorem steady_children (o : Object R) : o.steady.children = steadyAll o.children := by
  cases o <;> rfl

@[simp] theorem steady_groupInfo (o : Object R) : o.steady.groupInfo = o.groupInfo.steady := by
  cases o <;> rfl

theorem steady_withClip (o : Object R) (clip : Option (Clip R)) :
    (o.withClip clip).steady = o.steady.withClip clip := by
  cases o <;> rfl

theorem walk_steadyAll (objects : List (Object R)) :
    Address.walk (steadyAll objects) = (Address.walk objects).map steady := by
  induction objects using descent with
  | nil => rfl
  | cons o rest ihChildren ihRest =>
    rw [steadyAll, Address.walk_cons, Address.walk_cons, steady_children, ihChildren, ihRest]
    simp

theorem level_steadyAll (objects : List (Object R)) :
    Address.level (steadyAll objects) = (Address.level objects).map steady := by
  induction objects using forest with
  | nil => rfl
  | shape b s e rest ih | reference b r e rest ih => exact congrArg (_ :: ·) ih
  | group b cs info e rest ihChildren ihRest =>
    have hmembers : Address.members (group b (steadyAll cs) info.steady e) =
        (Address.members (group b cs info e)).map steady := by
      rw [Address.members, Address.members]
      split
      · exact ihChildren
      · rfl
    rw [steadyAll, steady, Address.level, Address.level, hmembers, ihRest, List.map_append]

theorem findLocal_steadyAll (objects : List (Object R)) (id : String) :
    Address.findLocal (steadyAll objects) id = (Address.findLocal objects id).map steady := by
  have hsame : (fun o : Object R => o.id == some id) ∘ steady = fun o => o.id == some id := by
    funext o
    exact congrArg (· == some id) (steady_id o)
  rw [Address.findLocal, level_steadyAll, List.find?_map, hsame, Address.findLocal]

theorem follow_steadyAll (objects : List (Object R)) (scope : String) (names : List String) :
    Address.follow (steadyAll objects) scope names =
      (Address.follow objects scope names).map steady := by
  induction names generalizing objects scope with
  | nil => rfl
  | cons name rest ih =>
    by_cases hrest : rest = []
    · subst hrest
      exact findLocal_steadyAll objects _
    · rw [Address.follow_cons hrest, Address.follow_cons hrest, findLocal_steadyAll]
      cases Address.findLocal objects (Address.join scope name) with
      | none => rfl
      | some o =>
        have hchildren := ih o.children (Address.join scope name)
        rwa [← steady_children] at hchildren

theorem find_steadyAll (objects : List (Object R)) (path scope : String) :
    Address.find (steadyAll objects) path scope = (Address.find objects path scope).map steady :=
  follow_steadyAll objects scope _

theorem descendants_steadyAll (objects : List (Object R)) (target : String) :
    Address.descendants (steadyAll objects) target =
      (Address.descendants objects target).map steady := by
  rw [Address.descendants, walk_steadyAll, List.filter_map, Address.descendants]
  refine congrArg _ (List.filter_congr fun o _ => ?_)
  rw [Function.comp_apply, steady_id]

theorem ids_steadyAll (objects : List (Object R)) :
    Address.ids (steadyAll objects) = Address.ids objects := by
  rw [Address.ids, walk_steadyAll, List.filterMap_map, Address.ids]
  exact List.filterMap_congr fun o _ => steady_id o

theorem measure_group (settings : Settings R) (measurer : Measurer R) (b : Base R)
    (cs : List (Object R)) (info : GroupInfo R) (e : Members R) :
    (group b cs info e).measure settings measurer = .ok ⟨defaultSide, defaultSide⟩ := by
  simp [Object.measure, Storyboard.measure, kind]

theorem measure_steady (settings : Settings R) (measurer : Measurer R) (o : Object R) :
    o.steady.measure settings measurer = o.measure settings measurer := by
  cases o with
  | group b cs info e => rw [steady, measure_group, measure_group]
  | shape b s e | reference b r e => rfl

theorem canAnimate_steady (o : Object R) (property : String) :
    o.steady.canAnimate property = o.canAnimate property := by
  cases o <;> rfl

theorem resolveClip_steady (settings : Settings R) (measurer : Measurer R) (o : Object R) :
    resolveClip settings measurer o.steady = (resolveClip settings measurer o).map steady := by
  rw [resolveClip, resolveClip, steady_base, measure_steady]
  split
  · rfl
  · rw [Outcome.map_bind]
    refine bind_congr fun size => ?_
    rw [Outcome.map_bind]
    exact bind_congr fun c => congrArg Except.ok (steady_withClip o (some c)).symm

theorem resolveAllClips_steadyAll (settings : Settings R) (measurer : Measurer R)
    (objects : List (Object R)) :
    resolveAllClips settings measurer (steadyAll objects) =
      (resolveAllClips settings measurer objects).map steadyAll := by
  have hcons (o : Object R) (rest : List (Object R))
      (ho : resolveClips settings measurer o.steady =
        (resolveClips settings measurer o).map steady)
      (hrest : resolveAllClips settings measurer (steadyAll rest) =
        (resolveAllClips settings measurer rest).map steadyAll) :
      resolveAllClips settings measurer (steadyAll (o :: rest)) =
        (resolveAllClips settings measurer (o :: rest)).map steadyAll := by
    rw [steadyAll, resolveAllClips, resolveAllClips, ho, hrest, Outcome.bind_map,
      Outcome.map_bind]
    refine bind_congr fun o => ?_
    rw [Outcome.bind_map, Outcome.map_bind]
    rfl
  induction objects using forest with
  | nil => rfl
  | shape b s e rest ih => exact hcons _ _ (resolveClip_steady settings measurer (shape b s e)) ih
  | reference b r e rest ih =>
    exact hcons _ _ (resolveClip_steady settings measurer (reference b r e)) ih
  | group b cs info e rest ihChildren ihRest =>
    refine hcons _ _ ?_ ihRest
    rw [steady, resolveClips, ihChildren, resolveClips, Outcome.bind_map, Outcome.map_bind]
    exact bind_congr fun children =>
      resolveClip_steady settings measurer (group b children info e)

end Object

/-- Values that are the same, or numbers both. -/
def Json.Near (j j' : Json R) : Prop := j' = j ∨ ∃ m n, j = .num m ∧ j' = .num n

/-- Quantities that are the same, or numbers both. -/
def Quantity.Near (q q' : Quantity R) : Prop := q' = q ∨ ∃ m n, q = .number m ∧ q' = .number n

omit [Scalar R] in
theorem Quantity.Near.isPercent {q q' : Quantity R} (h : q.Near q') :
    Percentage.isPercent q' = Percentage.isPercent q := by
  rcases h with rfl | ⟨m, n, rfl, rfl⟩ <;> rfl

theorem Quantity.Near.resolve {q q' r : Quantity R} {length : Number R} (h : q.Near q')
    (hq : Percentage.resolve q length = .ok r) : ∃ r', Percentage.resolve q' length = .ok r' := by
  rcases h with rfl | ⟨m, n, rfl, rfl⟩
  · exact ⟨r, hq⟩
  · exact ⟨.number n, rfl⟩

/-- Members of the same names whose values are near. -/
def Members.Near (ms ms' : Members R) : Prop :=
  List.Forall₂ (fun m m' => m'.1 = m.1 ∧ m.2.Near m'.2) ms ms'

namespace Members.Near

omit [Scalar R] in
theorem refl (ms : Members R) : Members.Near ms ms :=
  List.forall₂_same.mpr fun _ _ => ⟨rfl, .inl rfl⟩

omit [Scalar R] in
theorem append {ms ms' others others' : Members R} (h : Members.Near ms ms')
    (h' : Members.Near others others') : Members.Near (ms ++ others) (ms' ++ others') :=
  List.rel_append h h'

omit [Scalar R] in
theorem filter {ms ms' : Members R} (h : Members.Near ms ms') (names : List String) :
    Members.Near (ms.filter fun m => !names.contains m.1)
      (ms'.filter fun m => !names.contains m.1) := by
  induction h with
  | nil => exact .nil
  | cons hm _ ih =>
    rw [List.filter_cons, List.filter_cons, hm.1]
    split
    · exact .cons hm ih
    · exact ih

omit [Scalar R] in
theorem get? {ms ms' : Members R} (h : Members.Near ms ms') (name : String) :
    Option.Rel Json.Near (Members.get? name ms) (Members.get? name ms') := by
  induction h with
  | nil => exact .none
  | @cons m m' rest rest' hm _ ih =>
    obtain ⟨n, j⟩ := m
    obtain ⟨n', j'⟩ := m'
    obtain ⟨rfl, hnear⟩ := hm
    rw [Members.get?, Members.get?]
    split
    · exact .some hnear
    · exact ih

end Members.Near

namespace Object

theorem groupFields_near (room : Nat) (child : Codec R (Json R)) {info info' : GroupInfo R}
    (h : info'.steady = info.steady) :
    Members.Near ((GroupParts.fields room child).write ⟨[], info⟩)
      ((GroupParts.fields room child).write ⟨[], info'⟩) := by
  obtain ⟨start, duration, speed, animations, transition, expandedFrom, resolved⟩ := info
  obtain ⟨start', duration', speed', animations', transition', expandedFrom', resolved'⟩ := info'
  simp only [GroupInfo.steady, GroupInfo.mk.injEq] at h
  obtain ⟨rfl, rfl, hspeed, rfl, rfl, rfl, rfl⟩ := h
  -- All members but one are the same, and the names stand in the same order.
  refine .append (.append (.append (.append (.append (.refl _) ?_) (.refl _)) (.refl _)) (.refl _))
    (.refl _)
  cases speed with
  | none =>
    obtain rfl : speed' = none := by simpa using hspeed
    exact .refl _
  | some v =>
    cases speed' with
    | none => cases hspeed
    | some v' => exact .cons ⟨rfl, .inr ⟨_, _, rfl, rfl⟩⟩ .nil

theorem members_group (b : Base R) (cs : List (Object R)) (info : GroupInfo R) (e : Members R) :
    members [] (group b cs info e) = Base.fields.write b ++ [("type", .str "group")] ++
      (GroupParts.fields maxLevels Codec.raw).write ⟨[], info⟩ := rfl

/-- What of an object can be drawn or animated depends on speeds only where it is a speed. -/
theorem staticProps_near {o o' : Object R} (h : o'.steady = o.steady) :
    Members.Near o.staticProps o'.staticProps := by
  have hmembers : Members.Near (members [] o) (members [] o') := by
    cases o with
    | shape b s e => cases o' <;> cases h; exact .refl _
    | reference b r e => cases o' <;> cases h; exact .refl _
    | group b cs info e =>
      cases o' with
      | shape | reference => cases h
      | group b' cs' info' e' =>
        obtain ⟨rfl, -, hinfo, rfl⟩ := group.inj h
        rw [members_group, members_group]
        exact .append (.refl _) (groupFields_near _ _ hinfo)
  have hextras : o'.extras = o.extras := by
    rw [← steady_extras o', h, steady_extras]
  rw [staticProps, staticProps, hextras]
  exact (hmembers.filter _).append (.refl _)

/-- An effect value stands for near quantities on objects that differ in their speeds. -/
theorem effectValue_near {o o' : Object R} (h : o'.steady = o.steady) {context : String}
    {value : Json R} {q : Quantity R}
    (hq : Percentage.effectValue context (Token.substituteProperty (some o.staticProps) value) =
      .ok q) :
    ∃ q', Percentage.effectValue context (Token.substituteProperty (some o'.staticProps) value) =
      .ok q' ∧ q.Near q' := by
  have hnear : Json.Near (Token.substituteProperty (some o.staticProps) value)
      (Token.substituteProperty (some o'.staticProps) value) := by
    unfold Token.substituteProperty
    cases Token.name? value with
    | none => exact .inl rfl
    | some name =>
      have hget := (staticProps_near h).get? name
      simp only [Option.bind_some]
      generalize Members.get? name o.staticProps = found at hget ⊢
      generalize Members.get? name o'.staticProps = found' at hget ⊢
      cases hget with
      | none => exact .inl rfl
      | some hj =>
        rcases hj with rfl | ⟨m, n, rfl, rfl⟩
        · exact .inl rfl
        · exact .inr ⟨m, n, rfl, rfl⟩
  rcases hnear with hsame | ⟨m, n, hm, hn⟩
  · exact ⟨q, by rw [hsame, hq], .inl rfl⟩
  · rw [hm] at hq
    rw [hn]
    cases hq
    exact ⟨.number n, rfl, .inr ⟨m, n, rfl, rfl⟩⟩

/-- Every speed that is declared in a tree is above zero. -/
def Forward (objects : List (Object Rat)) : Prop :=
  ∀ o ∈ Address.walk objects, ∀ v, o.groupInfo.speed = some v → 0 < v

theorem forward_cons {o : Object Rat} {rest : List (Object Rat)} :
    Forward (o :: rest) ↔
      (∀ v, o.groupInfo.speed = some v → 0 < v) ∧ Forward o.children ∧ Forward rest := by
  simp only [Forward, Address.walk_cons, List.mem_append, List.mem_cons]
  constructor
  · intro h
    exact ⟨h o (.inl (.inl rfl)), fun x hx => h x (.inl (.inr hx)), fun x hx => h x (.inr hx)⟩
  · intro h x hx
    obtain ⟨ho, hchildren, hrest⟩ := h
    rcases hx with (rfl | hx) | hx
    · exact ho
    · exact hchildren x hx
    · exact hrest x hx

theorem groupProblems_eq_nil (id : String) (hasId : Bool) (info : GroupInfo Rat) :
    groupProblems id hasId info = [] ↔
      groupProblems id hasId info.steady = [] ∧ ∀ v, info.speed = some v → 0 < v := by
  have hone : (Scalar.exact (Scalar.const 1 0 : Rat)).le (.finite 0) = false := by
    decide +kernel
  cases hspeed : info.speed with
  | none => simp [groupProblems, GroupInfo.steady, hspeed]
  | some v =>
    have hle : (Scalar.exact v).le (.finite 0) = (decide (v < 0) || decide (v = 0)) := rfl
    have hv : (Scalar.exact v).le (.finite 0) = !decide (0 < v) := by
      rw [hle, ← Bool.decide_or, ← decide_not]
      exact decide_eq_decide.mpr (Std.le_iff_lt_or_eq.symm.trans Rat.not_lt.symm)
    simp only [groupProblems, GroupInfo.steady, hspeed, Option.map_some, hone, hv,
      List.append_eq_nil_iff]
    by_cases h : 0 < v <;> simp [h]

theorem problems_eq_nil_iff {o : Object Rat} :
    o.problems = [] ↔ o.steady.problems = [] ∧ ∀ v, o.groupInfo.speed = some v → 0 < v := by
  cases o with
  | group b cs info e =>
    have hown := groupProblems_eq_nil (shownId (group b cs info e)) b.id.isSome info
    simp only [problems, List.append_eq_nil_iff, hown]
    exact and_assoc.symm
  | shape b s e => simp [steady, groupInfo, GroupInfo.empty]
  | reference b r e => simp [steady, groupInfo, GroupInfo.empty]

theorem duplicateIds_steadyAll (scope : String) (seen : List String)
    (objects : List (Object Rat)) :
    duplicateIds scope seen (steadyAll objects) = duplicateIds scope seen objects := by
  induction objects generalizing seen with
  | nil => rfl
  | cons o rest ih =>
    rw [steadyAll, duplicateIds, duplicateIds, steady_id]
    split
    · exact ih seen
    · split
      · rw [ih]
      · rw [ih]

theorem deepProblemsOfAll_eq_nil {scope : String} {objects : List (Object Rat)} :
    deepProblemsOfAll scope objects = [] ↔
      deepProblemsOfAll scope (steadyAll objects) = [] ∧ Forward objects := by
  induction objects using forest generalizing scope with
  | nil => simp [steadyAll, Forward, Address.walk]
  | shape b s e rest ih | reference b r e rest ih =>
    rw [steadyAll, deepProblemsOfAll, deepProblemsOfAll, List.append_eq_nil_iff,
      List.append_eq_nil_iff, ih, forward_cons]
    simp [deepProblems, steady, groupInfo, GroupInfo.empty, children, Forward, Address.walk,
      and_assoc]
  | group b cs info e rest ihChildren ihRest =>
    have hscope : childScope scope (group b (steadyAll cs) info.steady e) =
        childScope scope (group b cs info e) := rfl
    have hown := problems_eq_nil_iff (o := group b cs info e)
    rw [steady] at hown
    rw [steadyAll, steady, deepProblemsOfAll, deepProblemsOfAll, deepProblems, deepProblems, hscope,
      duplicateIds_steadyAll, forward_cons]
    simp only [List.append_eq_nil_iff, hown, ihChildren, ihRest, children]
    tauto

/-- A tree passes the checks exactly if it does so without its speeds and these are above zero. -/
theorem checkTree_eq_ok_steady {objects : List (Object Rat)} :
    checkTree objects = .ok () ↔ checkTree (steadyAll objects) = .ok () ∧ Forward objects := by
  rw [checkTree_eq_ok, checkTree_eq_ok, treeProblems, treeProblems, List.append_eq_nil_iff,
    List.append_eq_nil_iff, deepProblemsOfAll_eq_nil, duplicateIds_steadyAll, and_assoc]

theorem checkTree_repaced {objects objects' : List (Object Rat)}
    (hobjects : steadyAll objects' = steadyAll objects) (hforward : Forward objects')
    (h : checkTree objects = .ok ()) : checkTree objects' = .ok () := by
  refine checkTree_eq_ok_steady.mpr ⟨?_, hforward⟩
  rw [hobjects]
  exact (checkTree_eq_ok_steady.mp h).1

end Object

end Storyboard
