import Storyboard.Proofs.Run
import Storyboard.Track.Check

namespace Storyboard

variable {R : Type} [Scalar R]

namespace Easing

/-- A value that is accepted as an easing, wherever it stands. -/
def Accepted (j : Option (Json R)) : Prop := ∃ context, checkOption context j = .ok ()

theorem checkRange_eq_ok {context : String} {a b : Number R} :
    checkRange context a b = .ok () ↔ inUnit a = true ∧ inUnit b = true := by
  rw [checkRange]
  split
  · simp_all
  · rename_i hrange
    refine iff_of_false (fun h => ?_) (by simpa using hrange)
    obtain ⟨s, -, h⟩ := Outcome.bind_eq_ok.mp h
    obtain ⟨t, -, h⟩ := Outcome.bind_eq_ok.mp h
    cases h

theorem checkText_context {context text : String} (context' : String)
    (h : checkText (R := R) context text = .ok ()) :
    checkText (R := R) context' text = .ok () := by
  rw [checkText] at h ⊢
  split at h
  · exact if_pos ‹_›
  · rename_i hnamed
    rw [if_neg hnamed]
    split at h
    · rename_i hcurve
      rw [if_pos hcurve]
      split at h
      · cases h
      · split at h
        · cases h
        · exact checkRange_eq_ok.mpr (checkRange_eq_ok.mp h)
    · cases h

theorem checkMembers_context {context : String} {members : Members R} (context' : String)
    (h : checkMembers context members = .ok ()) : checkMembers context' members = .ok () := by
  rw [checkMembers] at h ⊢
  split at h
  · split at h
    · split at h
      · exact checkRange_eq_ok.mpr (checkRange_eq_ok.mp h)
      · cases h
    · cases h
  · cases h

theorem checkOption_eq_ok {context : String} {j : Option (Json R)} :
    checkOption context j = .ok () ↔ Accepted j := by
  constructor
  · exact fun h => ⟨context, h⟩
  · intro h
    obtain ⟨context', h⟩ := h
    cases j with
    | none => rfl
    | some j =>
      cases j with
      | null => rfl
      | str s => exact checkText_context context h
      | obj members => exact checkMembers_context context h
      | bool | num | arr => cases h

end Easing

/-- The properties that the message of a refused track lists are the ones that the check admits. -/
theorem Object.mem_animatable {R : Type} {o : Object R} {property : String} :
    property ∈ o.animatable ↔ o.canAnimate property = true := by
  have hfill : property ∈ (if o.hasFill then ["fill"] else []) ↔
      property = "fill" ∧ o.hasFill = true := by
    cases o.hasFill <;> simp
  have hstroke : property ∈ (if o.hasStroke && !(kindProperties o.kind).contains "stroke" then
      ["stroke"] else []) ↔
      property = "stroke" ∧ o.hasStroke = true ∧ "stroke" ∉ kindProperties o.kind := by
    split <;> simp_all
  rw [animatable, (Order.sort_perm _ _).mem_iff, List.mem_append, List.mem_append, List.mem_append,
    hfill, hstroke, canAnimate]
  simp only [Bool.or_eq_true, Bool.and_eq_true, List.contains_iff_mem, beq_iff_eq]
  -- A stroke that the kind of the object names already is not listed twice.
  by_cases hkind : property = "stroke" ∧ "stroke" ∈ kindProperties o.kind
  · obtain ⟨rfl, hkind⟩ := hkind
    simp [hkind]
  · refine or_congr_right ⟨fun h => ⟨h.1, h.2.1⟩, fun h => ⟨h.1, h.2, fun hlisted => ?_⟩⟩
    exact hkind ⟨h.1, hlisted⟩

namespace Track

theorem checkEasings_eq_ok {source property : String} {index : Nat} {ks : List (Keyframe R)} :
    checkEasings source property index ks = .ok () ↔ ∀ k ∈ ks, Easing.Accepted k.easing := by
  induction ks generalizing index with
  | nil => simp [checkEasings]
  | cons k rest ih =>
    rw [checkEasings, Outcome.then_eq_ok, Easing.checkOption_eq_ok, ih, List.forall_mem_cons]

theorem check_eq_ok {objects : List (Object R)} {t : Track R} :
    check objects t = .ok () ↔
      ∃ o, Address.find objects t.target "" = some o ∧ o.canAnimate t.property = true ∧
        ∀ k ∈ t.keyframes, Easing.Accepted k.easing := by
  rw [check]
  split
  · rename_i hnone
    simp [hnone]
  · rename_i o hfind
    simp only [hfind, Option.some.injEq, exists_eq_left']
    split
    · rename_i hcan
      rw [checkEasings_eq_ok]
      simp [hcan]
    · rename_i hcan
      simp [hcan]

theorem checkAll_eq_ok {objects : List (Object R)} {tracks : List (Track R)} :
    checkAll objects tracks = .ok () ↔ ∀ t ∈ tracks, check objects t = .ok () := by
  induction tracks with
  | nil => simp [checkAll]
  | cons t rest ih =>
    rw [checkAll, Outcome.then_eq_ok, ih, List.forall_mem_cons]

end Track

end Storyboard
