import Mathlib.Data.List.Perm.Basic
import Storyboard.Flattening
import Storyboard.Proofs.Run

namespace Storyboard

namespace Order

variable {α β : Type} {rel : α → β → Prop} {lt : α → α → Bool} {lt' : β → β → Bool}

theorem insert_forall₂ (hlt : ∀ a b a' b', rel a a' → rel b b' → lt a b = lt' a' b') {x : α}
    {x' : β} {xs : List α} {ys : List β} (hx : rel x x') (h : List.Forall₂ rel xs ys) :
    List.Forall₂ rel (insert lt x xs) (insert lt' x' ys) := by
  induction h with
  | nil => exact .cons hx .nil
  | cons hy hrest ih =>
    rw [insert, insert, hlt _ _ _ _ hx hy]
    split
    · exact .cons hy ih
    · exact .cons hx (.cons hy hrest)

/-- Elements that are compared alike are put into the same order. -/
theorem sort_forall₂ (hlt : ∀ a b a' b', rel a a' → rel b b' → lt a b = lt' a' b')
    {xs : List α} {ys : List β} (h : List.Forall₂ rel xs ys) :
    List.Forall₂ rel (sort lt xs) (sort lt' ys) := by
  have hfold {sorted : List α} {sorted' : List β} (hsorted : List.Forall₂ rel sorted sorted') :
      List.Forall₂ rel (xs.foldl (fun s x => insert lt x s) sorted)
        (ys.foldl (fun s x => insert lt' x s) sorted') := by
    induction h generalizing sorted sorted' with
    | nil => exact hsorted
    | cons hx _ ih => exact ih (insert_forall₂ hlt hx hsorted)
  exact List.rel_reverse (hfold .nil)

theorem insert_pairwise (hasymm : ∀ a b, lt a b = true → lt b a = false)
    (htrans : ∀ a b c, lt a b = false → lt b c = false → lt a c = false) {x : α} {ys : List α}
    (h : ys.Pairwise fun a b => lt a b = false) :
    (insert lt x ys).Pairwise fun a b => lt a b = false := by
  induction ys with
  | nil => simp [insert]
  | cons y ys ih =>
    obtain ⟨hy, hys⟩ := List.pairwise_cons.mp h
    rw [insert]
    split
    · rename_i hlt
      refine List.pairwise_cons.mpr ⟨fun z hz => ?_, ih hys⟩
      rcases List.mem_cons.mp ((insert_perm lt x ys).mem_iff.mp hz) with rfl | hz
      · exact hasymm _ _ hlt
      · exact hy z hz
    · rename_i hnot
      have hxy : lt x y = false := by simpa using hnot
      refine List.pairwise_cons.mpr ⟨List.forall_mem_cons.mpr ⟨hxy, fun z hz => ?_⟩, h⟩
      exact htrans _ _ _ hxy (hy z hz)

/-- Where elements can be compared, none stands behind one that it is below. -/
theorem sort_pairwise (hasymm : ∀ a b, lt a b = true → lt b a = false)
    (htrans : ∀ a b c, lt a b = false → lt b c = false → lt a c = false) (xs : List α) :
    (sort lt xs).Pairwise fun a b => lt b a = false := by
  have hfold {sorted : List α} (hsorted : sorted.Pairwise fun a b => lt a b = false) :
      (xs.foldl (fun s x => insert lt x s) sorted).Pairwise fun a b => lt a b = false := by
    induction xs generalizing sorted with
    | nil => exact hsorted
    | cons x xs ih => exact ih (insert_pairwise hasymm htrans hsorted)
  exact List.pairwise_reverse.mpr (hfold .nil)

end Order

variable {R : Type}

/-- Each keyframe of a list becomes a related one, and there are no others. -/
def Becomes {α : Type} (rel : α → Keyframe R → Prop) (source : List α)
    (compiled : List (Keyframe R)) : Prop :=
  ∃ ks, List.Forall₂ rel source ks ∧ compiled.Perm ks

namespace Becomes

variable {α : Type} {rel : α → Keyframe R → Prop} {source : List α} {compiled : List (Keyframe R)}

theorem imp {rel' : α → Keyframe R → Prop} (h : Becomes rel source compiled)
    (himp : ∀ a k, rel a k → rel' a k) : Becomes rel' source compiled := by
  obtain ⟨ks, hall, hperm⟩ := h
  exact ⟨ks, hall.imp himp, hperm⟩

theorem exists_source {k : Keyframe R} (h : Becomes rel source compiled) (hk : k ∈ compiled) :
    ∃ a ∈ source, rel a k := by
  obtain ⟨ks, hall, hperm⟩ := h
  exact exists_related_of_mem hall (hperm.mem_iff.mp hk)

theorem exists_compiled {a : α} (h : Becomes rel source compiled) (ha : a ∈ source) :
    ∃ k ∈ compiled, rel a k := by
  obtain ⟨ks, hall, hperm⟩ := h
  obtain ⟨k, hk, hrel⟩ := exists_related_of_mem hall.flip ha
  exact ⟨k, hperm.mem_iff.mpr hk, hrel⟩

theorem of_forall₂ {β : Type} {first : α → β → Prop} {second : β → Keyframe R → Prop}
    {middle : List β} (h : List.Forall₂ first source middle) (h' : Becomes second middle compiled) :
    Becomes (fun a k => ∃ b, first a b ∧ second b k) source compiled := by
  obtain ⟨ks, hall, hperm⟩ := h'
  exact ⟨ks, forall₂_trans h hall, hperm⟩

theorem forall₂ {rel' : Keyframe R → Keyframe R → Prop} {changed : List (Keyframe R)}
    (h : Becomes rel source compiled) (h' : List.Forall₂ rel' compiled changed) :
    Becomes (fun a k => ∃ b, rel a b ∧ rel' b k) source changed := by
  obtain ⟨ks, hall, hperm⟩ := h
  obtain ⟨ks', hall', hperm'⟩ := List.perm_comp_forall₂ hperm.symm h'
  exact ⟨ks', forall₂_trans hall hall', hperm'.symm⟩

end Becomes

theorem Track.placed_eq_ok {frame : Quantity R → Outcome Int} {keyframes out : List (Keyframe R)}
    (h : Track.placed frame keyframes = .ok out) :
    Becomes (fun k k' => ∃ n, frame k.start = .ok n ∧ k' = k.startingAt n) keyframes out := by
  obtain ⟨placed, hplaced, rfl⟩ := Outcome.map_eq_ok.mp h
  have hperm : (Track.ordered placed).Perm (placed.map fun k => k.2.startingAt k.1) :=
    (Order.sort_perm _ placed).map _
  refine ⟨_, ?_, hperm⟩
  refine List.forall₂_map_right_iff.mpr ((Outcome.mapM_eq_ok.mp hplaced).imp ?_)
  intro k p hp
  obtain ⟨n, hn, rfl⟩ := Outcome.map_eq_ok.mp hp
  exact ⟨n, hn, rfl⟩

/-- Keyframes at whole frames, none before the one in front of it. -/
def Keyframe.InOrder (keyframes : List (Keyframe R)) : Prop :=
  ∃ frames : List Int, keyframes.map Keyframe.start = frames.map (fun n => .number (.int n)) ∧
    frames.Pairwise (· ≤ ·)

theorem Keyframe.InOrder.of_starts {keyframes others : List (Keyframe R)} (h : InOrder keyframes)
    (hstarts : others.map Keyframe.start = keyframes.map Keyframe.start) : InOrder others := by
  rw [InOrder, hstarts]
  exact h

theorem Track.ordered_inOrder (keyframes : List (Int × Keyframe R)) :
    Keyframe.InOrder (Track.ordered keyframes) := by
  refine ⟨(Order.sort (fun a b => decide (a.1 < b.1)) keyframes).map Prod.fst, ?_, ?_⟩
  · simp [Track.ordered, Keyframe.startingAt]
  · refine List.pairwise_map.mpr ((Order.sort_pairwise ?_ ?_ keyframes).imp ?_)
    · intro a b h
      simp only [decide_eq_true_eq, decide_eq_false_iff_not] at h ⊢
      omega
    · intro a b c hab hbc
      simp only [decide_eq_false_iff_not] at hab hbc ⊢
      omega
    · intro a b h
      simpa using h

theorem Track.placed_inOrder {frame : Quantity R → Outcome Int} {keyframes out : List (Keyframe R)}
    (h : Track.placed frame keyframes = .ok out) : Keyframe.InOrder out := by
  obtain ⟨placed, -, rfl⟩ := Outcome.map_eq_ok.mp h
  exact Track.ordered_inOrder placed

namespace EffectUse

variable [Scalar R]

/-- A keyframe of an effect at its frame, with its value put in. -/
def Shows (props : Option (Members R)) (start duration : Int) (k : EffectKeyframe R)
    (k' : Keyframe R) : Prop :=
  ∃ context value frame,
    Percentage.effectValue context (Token.substituteProperty props k.value) = .ok value ∧
      keyframeFrame start duration k.time = .ok frame ∧
      k' = ⟨.number (.int frame), value, k.easing, []⟩

theorem keyframesFrom_eq_ok {source property : String} {props : Option (Members R)}
    {start duration : Int} {index : Nat} {ks : List (EffectKeyframe R)} {out : List (Keyframe R)}
    (h : keyframesFrom source property props start duration index ks = .ok out) :
    List.Forall₂ (Shows props start duration) ks out := by
  induction ks generalizing index out with
  | nil => cases h; exact .nil
  | cons k rest ih =>
    rw [keyframesFrom] at h
    obtain ⟨first, hfirst, h⟩ := Outcome.bind_eq_ok.mp h
    obtain ⟨others, hothers, h⟩ := Outcome.bind_eq_ok.mp h
    rw [Outcome.pure_eq_ok] at h
    subst h
    obtain ⟨-, -, hfirst⟩ := Outcome.bind_eq_ok.mp hfirst
    obtain ⟨value, hvalue, hfirst⟩ := Outcome.bind_eq_ok.mp hfirst
    obtain ⟨frame, hframe, hfirst⟩ := Outcome.bind_eq_ok.mp hfirst
    rw [Outcome.pure_eq_ok] at hfirst
    exact .cons ⟨_, value, frame, hvalue, hframe, hfirst.symm⟩ (ih hothers)

/-- An effect gives one track for each of its properties. -/
theorem tracksOf_eq_ok {use : EffectUse R} {effect : Effect R} {fps : Number R}
    {props : Option (Members R)} {start : Int} {tracks : List (Track R)}
    (h : use.tracksOf effect fps props start = .ok tracks) :
    ∃ duration, use.durationFrames effect fps = .ok duration ∧
      List.Forall₂ (fun p t => t.target = use.target ∧ t.property = p.1 ∧
        List.Forall₂ (Shows props start duration) p.2 t.keyframes) effect.properties tracks := by
  obtain ⟨duration, hduration, h⟩ := Outcome.bind_eq_ok.mp h
  refine ⟨duration, hduration, (Outcome.mapM_eq_ok.mp h).imp ?_⟩
  intro p t ht
  obtain ⟨keyframes, hk, ht⟩ := Outcome.bind_eq_ok.mp ht
  rw [Outcome.pure_eq_ok] at ht
  subst ht
  exact ⟨rfl, rfl, keyframesFrom_eq_ok hk⟩

end EffectUse

end Storyboard
