import Mathlib.Data.List.Induction
import Storyboard.Proofs.Merging
import Storyboard.Proofs.Ordering
import Storyboard.Proofs.Sampling.Neighbours

namespace Storyboard

open Outcome

variable {R : Type}

namespace Sampler

theorem eraseDups_concat (names : List String) (name : String) :
    (names ++ [name]).eraseDups =
      if name ∈ names then names.eraseDups else names.eraseDups ++ [name] := by
  rw [List.eraseDups_append]
  by_cases hmem : name ∈ names
  · simp [List.removeAll, hmem]
  · simp [List.removeAll, hmem, List.eraseDups_cons]

theorem merged_concat (tracks : List (Track R)) (t : Track R) :
    merged (tracks ++ [t]) = addTrack (merged tracks) t := by
  rw [merged, List.foldl_append]
  rfl

/-- Targets stand in the order in which they first occur. -/
theorem targets_merged (tracks : List (Track R)) :
    (merged tracks).map Prod.fst = (tracks.map Track.target).eraseDups := by
  induction tracks using List.reverseRecOn with
  | nil => rfl
  | append_singleton tracks t ih =>
    rw [merged_concat, addTrack, Members.names_insert, ih, List.map_append, List.map_singleton,
      eraseDups_concat]
    simp only [List.mem_eraseDups]

/-- Under a target properties stand in the order in which they first occur. -/
theorem properties_merged (tracks : List (Track R)) (target : String) :
    ((Members.get? target (merged tracks)).getD []).map Prod.fst =
      ((tracks.filter (·.target == target)).map Track.property).eraseDups := by
  induction tracks using List.reverseRecOn with
  | nil => rfl
  | append_singleton tracks t ih =>
    rw [merged_concat, addTrack, Members.get?_insert, List.filter_append]
    by_cases htarget : t.target = target
    · subst htarget
      rw [if_pos rfl, Option.getD_some, Members.names_insert, ih]
      simp [eraseDups_concat, -List.mem_map]
    · simpa [htarget] using ih

end Sampler

variable [Scalar R]

theorem Keyframe.Timed.startsBefore {a b : Keyframe R} (ha : a.Timed) (hb : b.Timed) :
    a.startsBefore b = decide (a.time < b.time) := by
  obtain ⟨m, hm, hmexact⟩ := ha
  obtain ⟨n, hn, hnexact⟩ := hb
  have hlt : a.startsBefore b = m.lt n := by simp [Keyframe.startsBefore, hm, hn]
  rw [hlt, Number.lt, hmexact, hnexact]
  rfl

namespace Track

/-- Whether a keyframe starts before another one. -/
def earlier (a b : Keyframe R) : Bool := decide (a.time < b.time)

theorem sort_of_timed {ks : List (Keyframe R)} (h : ∀ k ∈ ks, k.Timed) :
    Order.sort Keyframe.startsBefore ks = Order.sort earlier ks := by
  have hrel : List.Forall₂ (fun a b => a = b ∧ a.Timed) ks ks :=
    List.forall₂_same.mpr fun k hk => ⟨rfl, h k hk⟩
  have hsorted : List.Forall₂ (fun a b => a = b ∧ a.Timed)
      (Order.sort Keyframe.startsBefore ks) (Order.sort earlier ks) := by
    refine Order.sort_forall₂ (fun a b a' b' ha hb => ?_) hrel
    obtain ⟨rfl, ha⟩ := ha
    obtain ⟨rfl, hb⟩ := hb
    exact ha.startsBefore hb
  exact List.forall₂_eq_eq_eq ▸ hsorted.imp fun _ _ hab => hab.1

theorem sort_ascending (ks : List (Keyframe R)) :
    (Order.sort earlier ks).Pairwise fun a b => a.time ≤ b.time := by
  refine (Order.sort_pairwise ?_ ?_ ks).imp ?_
  · intro a b h
    simp only [earlier, decide_eq_true_eq, decide_eq_false_iff_not, not_lt] at h ⊢
    exact h.le
  · intro a b c hab hbc
    simp only [earlier, decide_eq_false_iff_not, not_lt] at hab hbc ⊢
    exact hbc.trans hab
  · intro a b h
    simpa [earlier] using h

/-- Keyframes that start together stay in their order. -/
theorem filter_sort_time (ks : List (Keyframe R)) (q : Rat) :
    (Order.sort earlier ks).filter (·.time = q) = ks.filter (·.time = q) := by
  refine Order.filter_sort_of (fun a b ha hb => ?_) ks
  simp only [decide_eq_true_eq] at ha hb
  simp [earlier, ha, hb]

end Track

namespace Sampler

/-- The keyframes of a target and a property, none if it is not animated. -/
def track (s : Sampler R) (target property : String) : List (Keyframe R) :=
  (Members.get? property (s.tracksFor target)).getD []

/-- Keyframes that all start at rationals. -/
def AllTimed (tracks : List (Track R)) : Prop := ∀ t ∈ tracks, ∀ k ∈ t.keyframes, k.Timed

/-- A sampler that holds the keyframes of tracks: those of each target and property, in the order of
their starts, and where they start together as they are given. -/
structure Holds (tracks : List (Track R)) (s : Sampler R) : Prop where
  targets : s.targets = (tracks.map Track.target).eraseDups
  properties : ∀ target, (s.tracksFor target).map Prod.fst =
    ((tracks.filter (·.target == target)).map Track.property).eraseDups
  perm : ∀ target property, (s.track target property).Perm (keyframesFor tracks target property)
  ascending : ∀ target property,
    (s.track target property).Pairwise fun a b => a.time ≤ b.time
  stable : ∀ target property (q : Rat), (s.track target property).filter (·.time = q) =
    (keyframesFor tracks target property).filter (·.time = q)

theorem AllTimed.ofTracks {tracks : List (Track R)} (h : AllTimed tracks) :
    ofTracks tracks = .ok (arranged tracks) := by
  refine ofTracks_of_ordered fun t ht k hk => ?_
  obtain ⟨n, hn, hexact⟩ := h t ht k hk
  exact ⟨n, hn, by simp [Number.isOrdered, Number.eq, hexact, Exact.eq]⟩

theorem AllTimed.track_arranged {tracks : List (Track R)} (h : AllTimed tracks)
    (target property : String) : (arranged tracks).track target property =
      Order.sort Track.earlier (keyframesFor tracks target property) := by
  rw [track, get?_arranged, Track.sort_of_timed fun k hk => ?_]
  obtain ⟨t, ht, -, -, hkt⟩ := mem_keyframes_of_mem_keyframesFor hk
  exact h t ht k hkt

theorem AllTimed.holds {tracks : List (Track R)} (h : AllTimed tracks) :
    Holds tracks (arranged tracks) where
  targets := by
    rw [targets, arranged, List.map_map, ← targets_merged]
    rfl
  properties target := by
    rw [tracksFor_arranged, List.map_map, ← properties_merged]
    rfl
  perm target property := by
    rw [h.track_arranged]
    exact Order.sort_perm _ _
  ascending target property := by
    rw [h.track_arranged]
    exact Track.sort_ascending _
  stable target property q := by
    rw [h.track_arranged]
    exact Track.filter_sort_time _ q

section

variable [Trig R]

/-- The values that are sampled of a target at a frame, each under its property. -/
def Shows (s : Sampler R) (settings : Settings R) (target : String) (frame : Number R)
    (values : String → Option (Quantity R)) : Prop :=
  ∃ sampled, s.sampleTarget settings target frame = .ok sampled ∧
    ∀ property, Members.get? property sampled = values property

theorem shows_arranged (tracks : List (Track R)) {settings : Settings R} {target : String}
    {frame : Number R} {values : String → Option (Quantity R)} :
    (arranged tracks).Shows settings target frame values ↔ ∀ property,
      (arranged tracks).sampleProperty settings target property frame = .ok (values property) := by
  constructor
  · intro ⟨sampled, hsampled, hget⟩
    have hfound (property : String) :
        ∃ value, (arranged tracks).sampleProperty settings target property frame = .ok value := by
      cases hvalue : (arranged tracks).sampleProperty settings target property frame with
      | ok value => exact ⟨value, rfl⟩
      | error fault => exact absurd ⟨sampled, hsampled⟩ (not_returns_sampleTarget hvalue)
    choose found hfound using hfound
    obtain ⟨sampled', hsampled', -, hget'⟩ :=
      sampleTarget_eq_ok (distinct_arranged tracks target) hfound
    obtain rfl := Except.ok.inj (hsampled.symm.trans hsampled')
    intro property
    rw [hfound property, ← hget' property, hget property]
  · intro hvalues
    obtain ⟨sampled, hsampled, -, hget⟩ :=
      sampleTarget_eq_ok (distinct_arranged tracks target) hvalues
    exact ⟨sampled, hsampled, hget⟩

/-- Two lists of tracks from which the same values are sampled at every frame. -/
def SampledAlike (tracks others : List (Track R)) : Prop :=
  ∃ s s', ofTracks tracks = .ok s ∧ ofTracks others = .ok s' ∧
    ∀ (settings : Settings R) (target : String) (frame : Number R),
      (∀ property, s'.sampleProperty settings target property frame =
        s.sampleProperty settings target property frame) ∧
      ∀ values, s'.Shows settings target frame values ↔ s.Shows settings target frame values

/-- What is sampled depends on nothing but the keyframes of each target and property. -/
theorem sampledAlike_of_keyframes {tracks others : List (Track R)} (h : AllTimed tracks)
    (h' : AllTimed others)
    (hsame : ∀ target property,
      keyframesFor others target property = keyframesFor tracks target property) :
    SampledAlike tracks others := by
  refine ⟨arranged tracks, arranged others, h.ofTracks, h'.ofTracks,
    fun settings target frame => ?_⟩
  have hproperty (property : String) :
      (arranged others).sampleProperty settings target property frame =
        (arranged tracks).sampleProperty settings target property frame := by
    rw [sampleProperty, sampleProperty, get?_arranged, get?_arranged, hsame]
  refine ⟨hproperty, fun values => ?_⟩
  simp only [shows_arranged, hproperty]

end

/-- The tracks of a target and a property. -/
def tracksOf (tracks : List (Track R)) (target property : String) : List (Track R) :=
  tracks.filter fun t => t.target == target && t.property == property

/-- Tracks in another order, in which those of each target and property keep theirs. -/
structure Reordered (tracks others : List (Track R)) : Prop where
  perm : others.Perm tracks
  kept : ∀ target property, tracksOf others target property = tracksOf tracks target property

/-- A track cut into tracks of the same target and property that have its keyframes one after
another. -/
structure CutInto (t : Track R) (pieces : List (Track R)) : Prop where
  named : ∀ piece ∈ pieces, piece.target = t.target ∧ piece.property = t.property
  keyframes : pieces.flatMap Track.keyframes = t.keyframes

omit [Scalar R] in
theorem tracksOf_of_named {t : Track R} {pieces : List (Track R)}
    (h : ∀ piece ∈ pieces, piece.target = t.target ∧ piece.property = t.property)
    (target property : String) : tracksOf pieces target property =
      if t.target = target ∧ t.property = property then pieces else [] := by
  split
  · rename_i hnamed
    refine List.filter_eq_self.mpr fun piece hpiece => ?_
    obtain ⟨htarget, hproperty⟩ := h piece hpiece
    simpa [htarget, hproperty] using hnamed
  · rename_i hnamed
    refine List.filter_eq_nil_iff.mpr fun piece hpiece => ?_
    obtain ⟨htarget, hproperty⟩ := h piece hpiece
    simpa [htarget, hproperty] using hnamed

omit [Scalar R] in
theorem CutInto.keyframesFor {t : Track R} {pieces : List (Track R)} (h : CutInto t pieces)
    (target property : String) :
    keyframesFor pieces target property = keyframesFor [t] target property := by
  have hself : ∀ piece ∈ [t], piece.target = t.target ∧ piece.property = t.property := by
    simp
  change (tracksOf pieces target property).flatMap Track.keyframes =
    (tracksOf [t] target property).flatMap Track.keyframes
  rw [tracksOf_of_named h.named, tracksOf_of_named hself]
  split
  · rw [h.keyframes, List.flatMap_singleton]
  · rfl

theorem AllTimed.cut {before pieces behind : List (Track R)} {t : Track R}
    (h : AllTimed (before ++ t :: behind)) (hcut : CutInto t pieces) :
    AllTimed (before ++ pieces ++ behind) := by
  intro piece hpiece k hk
  simp only [List.mem_append] at hpiece
  rcases hpiece with (hpiece | hpiece) | hpiece
  · exact h piece (List.mem_append_left _ hpiece) k hk
  · have hkt : k ∈ t.keyframes := hcut.keyframes ▸ List.mem_flatMap.mpr ⟨piece, hpiece, hk⟩
    exact h t (List.mem_append_right _ List.mem_cons_self) k hkt
  · exact h piece (List.mem_append_right _ (List.mem_cons_of_mem _ hpiece)) k hk

/-- Merging loses nothing and is stable, so the sampled values do not change when tracks of
different targets or properties change places, or when a track is cut into several. -/
theorem ofTracks_holds [Trig R] {tracks : List (Track R)} (h : AllTimed tracks) :
    (∃ s, ofTracks tracks = .ok s ∧ Holds tracks s) ∧
      (∀ others, Reordered tracks others → SampledAlike tracks others) ∧
      ∀ before t behind pieces, tracks = before ++ t :: behind → CutInto t pieces →
        SampledAlike tracks (before ++ pieces ++ behind) := by
  refine ⟨⟨arranged tracks, h.ofTracks, h.holds⟩, fun others hothers => ?_, ?_⟩
  · have hothersTimed : AllTimed others := fun t ht => h t (hothers.perm.mem_iff.mp ht)
    refine sampledAlike_of_keyframes h hothersTimed fun target property => ?_
    exact congrArg (List.flatMap Track.keyframes) (hothers.kept target property)
  · intro before t behind pieces htracks hcut
    subst htracks
    refine sampledAlike_of_keyframes h (h.cut hcut) fun target property => ?_
    calc keyframesFor (before ++ pieces ++ behind) target property
        = keyframesFor before target property ++ keyframesFor pieces target property ++
          keyframesFor behind target property := by simp only [keyframesFor_append]
      _ = keyframesFor before target property ++ keyframesFor [t] target property ++
          keyframesFor behind target property := by rw [hcut.keyframesFor]
      _ = keyframesFor (before ++ t :: behind) target property := by
        rw [List.append_cons, keyframesFor_append, keyframesFor_append]

/-- Two tracks of one property, and a track of another object between them. -/
def interleaved : List (Track Rat) :=
  [⟨"a", "x", [⟨.number (.int 20), .number (.int 1), none, []⟩,
      ⟨.number (.int 0), .number (.int 2), none, []⟩], []⟩,
    ⟨"b", "x", [⟨.number (.int 5), .number (.int 3), none, []⟩], []⟩,
    ⟨"a", "x", [⟨.number (.real 0), .number (.int 4), none, []⟩], []⟩]

/-- The keyframes at frame zero stay in the order of their tracks, and the track of the other object
may as well stand in front. -/
theorem interleaved_holds :
    AllTimed interleaved ∧ (∃ s, ofTracks interleaved = .ok s ∧ Holds interleaved s ∧
      s.targets = ["a", "b"] ∧
      (s.track "a" "x").map Keyframe.value =
        [.number (.int 2), .number (.int 4), .number (.int 1)]) ∧
    @SampledAlike Rat _ unturned interleaved
      (tracksOf interleaved "b" "x" ++ tracksOf interleaved "a" "x") := by
  let _ : Trig Rat := unturned
  have htimed : AllTimed interleaved := by
    simp only [AllTimed, interleaved, List.forall_mem_cons]
    refine ⟨⟨.of_start rfl rfl, .of_start rfl rfl, ?_⟩, ⟨.of_start rfl rfl, ?_⟩,
      ⟨.of_start rfl rfl, ?_⟩, ?_⟩
    all_goals exact fun k hk => absurd hk List.not_mem_nil
  obtain ⟨⟨s, hs, hholds⟩, hreordered, -⟩ := ofTracks_holds htimed
  refine ⟨htimed, ⟨s, hs, hholds, ?_, ?_⟩, hreordered _ ⟨?_, ?_⟩⟩
  · rw [hholds.targets]
    decide
  · obtain rfl := Except.ok.inj (hs.symm.trans htimed.ofTracks)
    decide +kernel
  · exact .swap _ _ _
  · intro target property
    by_cases htarget : "a" = target
    · subst htarget
      simp [tracksOf, interleaved, List.filter_cons]
    · simp [tracksOf, interleaved, List.filter_cons, htarget]

end Sampler

end Storyboard
