import Storyboard.Object.Check
import Storyboard.Proofs.Flattening.Source

namespace Storyboard

variable {R : Type}

def GroupInfo.muted (info : GroupInfo R) : GroupInfo R := { info with animations := [], resolved := [] }

namespace Object

mutual

/-- An object in which no group has animations. -/
def muted : Object R → Object R
  | .group b cs info e => .group b (mutedAll cs) info.muted e
  | .shape b s e => .shape b s e
  | .reference b r e => .reference b r e

def mutedAll : List (Object R) → List (Object R)
  | [] => []
  | o :: rest => muted o :: mutedAll rest

end

theorem mutedAll_eq_map (objects : List (Object R)) : mutedAll objects = objects.map muted := by
  induction objects with
  | nil => rfl
  | cons o rest ih => rw [mutedAll, ih, List.map_cons]

@[simp] theorem base_muted (o : Object R) : o.muted.base = o.base := by
  cases o <;> rfl

@[simp] theorem id_muted (o : Object R) : o.muted.id = o.id := by
  rw [id, base_muted, id]

@[simp] theorem children_muted (o : Object R) : o.muted.children = mutedAll o.children := by
  cases o <;> rfl

@[simp] theorem groupInfo_muted (o : Object R) : o.muted.groupInfo = o.groupInfo.muted := by
  cases o <;> rfl

theorem duplicateIds_mutedAll (scope : String) (seen : List String) (objects : List (Object R)) :
    duplicateIds scope seen (mutedAll objects) = duplicateIds scope seen objects := by
  induction objects generalizing seen with
  | nil => rfl
  | cons o rest ih =>
    rw [mutedAll, duplicateIds, duplicateIds, id_muted]
    simp only [ih]

variable [Scalar R]

/-- The checks of a tree do not look at animations. -/
theorem treeProblems_mutedAll (objects : List (Object R)) (scope : String) :
    treeProblems (mutedAll objects) scope = treeProblems objects scope := by
  have hdeep (objects : List (Object R)) (scope : String) :
      deepProblemsOfAll scope (mutedAll objects) = deepProblemsOfAll scope objects := by
    induction objects using forest generalizing scope with
    | nil => rfl
    | shape b s e rest ih | reference b r e rest ih => exact congrArg (_ ++ ·) (ih scope)
    | group b cs info e rest ihChildren ihRest =>
      have hproblems : problems (group b (mutedAll cs) info.muted e) =
          problems (group b cs info e) := rfl
      have hscope : childScope scope (group b (mutedAll cs) info.muted e) =
          childScope scope (group b cs info e) := rfl
      rw [mutedAll, muted, deepProblemsOfAll, deepProblemsOfAll, deepProblems, deepProblems,
        hproblems, hscope, duplicateIds_mutedAll, ihChildren, ihRest]
  rw [treeProblems, treeProblems, duplicateIds_mutedAll, hdeep]

theorem checkTree_mutedAll (objects : List (Object R)) :
    checkTree (mutedAll objects) = checkTree objects := by
  rw [checkTree, checkTree, treeProblems_mutedAll]

end Object

namespace Flattening

theorem Level.along_map_muted (way : List (Object R)) :
    along (way.map Object.muted) = along way := by
  have hinside (l : Level) (o : Object R) : l.inside o.muted = l.inside o := by
    cases o <;> rfl
  have hfrom (l : Level) : (way.map Object.muted).foldl inside l = way.foldl inside l := by
    induction way generalizing l with
    | nil => rfl
    | cons o rest ih => rw [List.map_cons, List.foldl_cons, hinside, ih, List.foldl_cons]
  exact hfrom root

theorem opened_muted (objects way : List (Object R)) :
    opened Object.children (Object.mutedAll objects) (way.map Object.muted) =
      Object.mutedAll (opened Object.children objects way) := by
  rw [opened, opened, List.getLast?_map]
  cases way.getLast? with
  | none => rfl
  | some o => exact o.children_muted

/-- A source in a tree without animations. -/
def Source.muted (src : Source R) : Source R := { src with way := src.way.map Object.muted }

theorem map_muted_sourcesFrom {way way' : List (Object R)}
    (hway : way'.map Object.muted = way.map Object.muted) (position : List Nat) (i : Nat)
    (objects : List (Object R)) : (sourcesFrom position way' i objects).map Source.muted =
      (sourcesFrom position way i objects).map Source.muted := by
  induction objects using Object.descent generalizing position way way' i with
  | nil => rfl
  | cons o rest ihChildren ihRest =>
    have hinside : (way' ++ [o]).map Object.muted = (way ++ [o]).map Object.muted := by
      rw [List.map_append, hway, List.map_append]
    rw [sourcesFrom, sourcesFrom, sources_eq, sources_eq]
    simp only [List.map_append, List.map_map, ihChildren hinside, ihRest hway]
    refine congrArg (fun own => _ ++ own ++ _) (List.map_congr_left fun cause _ => ?_)
    simp only [Function.comp_apply, Source.muted, hinside]

variable [Scalar R]

theorem along_map_muted (fps : Number R) (s : TimeScope R) (way : List (Object R)) :
    TimeScope.along fps s (way.map Object.muted) = TimeScope.along fps s way := by
  rw [TimeScope.along, List.foldlM_map, TimeScope.along]
  refine congrArg (fun enter => way.foldlM enter s) (funext fun t => funext fun o => ?_)
  rw [Object.groupInfo_muted]
  rfl

theorem absolute_muted_of {fps : Number R} {o : Object R}
    (hchildren : ∀ l s, absoluteAll fps l s (Object.mutedAll o.children) =
      absoluteAll fps l s o.children) (l : Level) (s : TimeScope R) :
    absolute fps l s o.muted = absolute fps l s o := by
  cases o with
  | shape b sh e | reference b r e => rfl
  | group b cs info e =>
    have hchildren' (l : Level) (s : TimeScope R) :
        absoluteAll fps l s (Object.mutedAll cs) = absoluteAll fps l s cs := hchildren l s
    rw [Object.muted, absolute, absolute]
    refine bind_congr fun own => ?_
    rw [hchildren']
    rfl

/-- The compiled tree does not depend on animations. -/
theorem absoluteAll_mutedAll (fps : Number R) (l : Level) (s : TimeScope R)
    (objects : List (Object R)) :
    absoluteAll fps l s (Object.mutedAll objects) = absoluteAll fps l s objects := by
  induction objects using Object.descent generalizing l s with
  | nil => rfl
  | cons o rest ihChildren ihRest =>
    rw [Object.mutedAll, absoluteAll, absolute_muted_of ihChildren, ihRest, absoluteAll]

theorem absolute_muted (fps : Number R) (l : Level) (s : TimeScope R) (o : Object R) :
    absolute fps l s o.muted = absolute fps l s o :=
  absolute_muted_of (fun l s => absoluteAll_mutedAll fps l s o.children) l s

omit [Scalar R] in
/-- A way that ends in an object without its animations is one that ends in an object. -/
theorem exists_map_muted_concat {way : List (Object R)} {P : List (Object R) → Object R → Prop} :
    (∃ around o, way.map Object.muted = around ++ [o] ∧ P around o) ↔
      ∃ around o, way = around ++ [o] ∧ P (around.map Object.muted) o.muted := by
  constructor
  · intro h
    obtain ⟨around, o, hway, hP⟩ := h
    obtain ⟨front, x, rfl, rfl, rfl⟩ := concat_of_map_eq hway
    exact ⟨front, x, rfl, hP⟩
  · intro h
    obtain ⟨around, o, rfl, hP⟩ := h
    exact ⟨around.map Object.muted, o.muted, by simp, hP⟩

/-- What a source is compiled to does not depend on the animations around it. -/
theorem Source.emits_muted {d : Disk} {library : EffectLibrary R} {fps : Number R}
    {root : TimeScope R} {objects : List (Object R)} {src : Source R} {out : List (Track R)} :
    src.muted.Emits d library fps root (Object.mutedAll objects) out ↔
      src.Emits d library fps root objects out := by
  obtain ⟨position, way, cause⟩ := src
  refine exists_congr fun own => exists_congr fun level => ?_
  rw [Source.muted]
  dsimp only
  rw [along_map_muted, Level.along_map_muted, opened_muted, absoluteAll_mutedAll]
  refine and_congr_right fun _ => and_congr_right fun _ => ?_
  cases cause with
  | entry e | resolved e => rfl
  | enter t =>
    simp only [exists_and_left, exists_map_muted_concat, along_map_muted, Level.along_map_muted,
      absolute_muted]
  | leave t =>
    have hduration (o : Object R) : o.muted.groupInfo.duration = o.groupInfo.duration := by
      rw [Object.groupInfo_muted]
      rfl
    simp only [exists_and_left, exists_map_muted_concat, along_map_muted, Level.along_map_muted,
      absolute_muted, hduration]

end Flattening

end Storyboard
