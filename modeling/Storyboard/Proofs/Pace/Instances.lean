import Storyboard.Proofs.Expansion.Completion
import Storyboard.Proofs.Pace.Objects

namespace Storyboard.Instance

variable {R : Type} [Scalar R]

mutual

/-- An instance in which every declared speed is one, in the files as well. -/
def steady : Instance R → Instance R
  | .shape b s e => .shape b s e
  | .group b cs info e => .group b (steadyAll cs) info.steady e
  | .opened b r e place file cs =>
    .opened b r e place { file with objects := Object.steadyAll file.objects } (steadyAll cs)

def steadyAll : List (Instance R) → List (Instance R)
  | [] => []
  | i :: rest => steady i :: steadyAll rest

end

theorem declaredAll_steadyAll (instances : List (Instance R)) :
    declaredAll (steadyAll instances) = Object.steadyAll (declaredAll instances) := by
  induction instances using forest with
  | nil => rfl
  | shape b s e rest ih => exact congrArg (_ :: ·) ih
  | group b cs info e rest ihChildren ihRest =>
    rw [steadyAll, steady, declaredAll, declared, ihChildren, ihRest]
    rfl
  | opened b r e place file cs rest ihChildren ihRest => exact congrArg (_ :: ·) ihRest

theorem referableAll_steadyAll {lead : String} {instances : List (Instance R)} :
    ReferableAll lead (steadyAll instances) ↔ ReferableAll lead instances := by
  induction instances using forest generalizing lead with
  | nil => exact Iff.rfl
  | shape b s e rest ih => exact and_congr Iff.rfl ih
  | group b cs info e rest ihChildren ihRest => exact and_congr ihChildren ihRest
  | opened b r e place file cs rest ihChildren ihRest =>
    exact and_congr (and_congr Iff.rfl ihChildren) ihRest

theorem expandedAll_steadyAll (fps : Number R) (lead : String) (offset : Int)
    (instances : List (Instance R)) :
    expandedAll fps lead offset (steadyAll instances) =
      (expandedAll fps lead offset instances).map Object.steadyAll := by
  have hcons (lead : String) (offset : Int) (i : Instance R) (rest : List (Instance R))
      (hi : expanded fps lead offset i.steady = (expanded fps lead offset i).map Object.steady)
      (hrest : expandedAll fps lead offset (steadyAll rest) =
        (expandedAll fps lead offset rest).map Object.steadyAll) :
      expandedAll fps lead offset (steadyAll (i :: rest)) =
        (expandedAll fps lead offset (i :: rest)).map Object.steadyAll := by
    rw [steadyAll, expandedAll, expandedAll, hi, hrest, Outcome.bind_map, Outcome.map_bind]
    refine bind_congr fun o => ?_
    rw [Outcome.bind_map, Outcome.map_bind]
    rfl
  induction instances using forest generalizing lead offset with
  | nil => rfl
  | shape b s e rest ih => exact hcons _ _ _ _ rfl (ih _ _)
  | group b cs info e rest ihChildren ihRest =>
    refine hcons _ _ _ _ ?_ (ihRest _ _)
    rw [steady, expanded, expanded, Outcome.map_bind]
    refine bind_congr fun start => ?_
    rw [ihChildren, Outcome.bind_map, Outcome.map_bind]
    rfl
  | opened b r e place file cs rest ihChildren ihRest =>
    refine hcons _ _ _ _ ?_ (ihRest _ _)
    rw [steady, expanded, expanded, Outcome.map_bind]
    refine bind_congr fun start => ?_
    rw [ihChildren, Outcome.bind_map, Outcome.map_bind]
    refine bind_congr fun children => ?_
    rw [Outcome.map_bind]
    rfl

mutual

/-- Every speed that is declared in an instance is above zero, in the files as well. -/
def Forward : Instance Rat → Prop
  | .shape .. => True
  | .group _ cs info _ => (∀ v, info.speed = some v → 0 < v) ∧ ForwardAll cs
  | .opened _ _ _ _ _ cs => ForwardAll cs

def ForwardAll : List (Instance Rat) → Prop
  | [] => True
  | i :: rest => Forward i ∧ ForwardAll rest

end

theorem ForwardAll.declared {instances : List (Instance Rat)} (h : ForwardAll instances) :
    Object.Forward (declaredAll instances) := by
  induction instances using forest with
  | nil => simp [declaredAll, Object.Forward, Address.walk]
  | shape b s e rest ih =>
    refine Object.forward_cons.mpr ⟨fun v hv => (by cases hv), ?_, ih h.2⟩
    simp [Instance.declared, Object.children, Object.Forward, Address.walk]
  | group b cs info e rest ihChildren ihRest =>
    exact Object.forward_cons.mpr ⟨h.1.1, ihChildren h.1.2, ihRest h.2⟩
  | opened b r e place file cs rest ihChildren ihRest =>
    refine Object.forward_cons.mpr ⟨fun v hv => (by cases hv), ?_, ihRest h.2⟩
    simp [Instance.declared, Object.children, Object.Forward, Address.walk]

theorem ForwardAll.expanded {fps : Number Rat} {lead : String} {offset : Int}
    {instances : List (Instance Rat)} {objects : List (Object Rat)} (h : ForwardAll instances)
    (hexpanded : expandedAll fps lead offset instances = .ok objects) : Object.Forward objects := by
  induction instances using forest generalizing lead offset objects with
  | nil =>
    cases hexpanded
    simp [Object.Forward, Address.walk]
  | shape b s e rest ih =>
    obtain ⟨o, others, ho, hothers, rfl⟩ := expandedAll_cons_eq_ok.mp hexpanded
    cases ho
    refine Object.forward_cons.mpr ⟨fun v hv => (by cases hv), ?_, ih h.2 hothers⟩
    simp [Object.children, Object.Forward, Address.walk]
  | group b cs info e rest ihChildren ihRest =>
    obtain ⟨o, others, ho, hothers, rfl⟩ := expandedAll_cons_eq_ok.mp hexpanded
    obtain ⟨start, children, -, hchildren, rfl⟩ := expanded_group_eq_ok.mp ho
    exact Object.forward_cons.mpr ⟨h.1.1, ihChildren h.1.2 hchildren, ihRest h.2 hothers⟩
  | opened b r e place file cs rest ihChildren ihRest =>
    obtain ⟨o, others, ho, hothers, rfl⟩ := expandedAll_cons_eq_ok.mp hexpanded
    obtain ⟨start, children, resolved, -, hchildren, -, rfl⟩ := expanded_opened_eq_ok.mp ho
    refine Object.forward_cons.mpr ⟨fun v hv => ?_, ihChildren h.1 hchildren, ihRest h.2 hothers⟩
    cases hv

end Storyboard.Instance
