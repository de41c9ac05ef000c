import Storyboard.Proofs.Composition.Values
import Storyboard.Proofs.Keyframes

namespace Storyboard

open Outcome

variable {R : Type}

namespace Members

variable {α β : Type} {name : String} {ms more : List (String × α)}

/-- No name stands in members twice. -/
def Distinct (ms : List (String × α)) : Prop := (ms.map Prod.fst).Nodup

theorem get?_cons {n : String} {v : α} {rest : List (String × α)} :
    get? name ((n, v) :: rest) = if n = name then some v else get? name rest := by
  simp [get?]

theorem get?_insert {n : String} {v : α} :
    get? name (insert n v ms) = if n = name then some v else get? name ms := by
  split
  · rename_i heq
    rw [heq]
    exact get?_insert_self name v ms
  · rename_i hne
    exact get?_insert_of_ne (Ne.symm hne) v ms

theorem get?_map {f : α → β} :
    get? name (ms.map fun m => (m.1, f m.2)) = (get? name ms).map f := by
  induction ms with
  | nil => rfl
  | cons first rest ih =>
    rw [List.map_cons, get?_cons, get?_cons, ih]
    split <;> rfl

theorem get?_filter {p : String → Bool} :
    get? name (ms.filter fun m => p m.1) = if p name then get? name ms else none := by
  induction ms with
  | nil => simp [get?]
  | cons first rest ih =>
    obtain ⟨n, v⟩ := first
    rw [List.filter_cons, get?_cons]
    by_cases hn : n = name
    · subst hn
      by_cases hp : p n = true <;> simp [hp, get?_cons, ih]
    · by_cases hp : p n = true <;> simp [hp, hn, get?_cons, ih]

theorem get?_eq_none_iff : get? name ms = none ↔ name ∉ ms.map Prod.fst := by
  induction ms with
  | nil => simp [get?]
  | cons first rest ih =>
    rw [get?_cons, List.map_cons, List.mem_cons, not_or, ← ih]
    split <;> rename_i hn
    · simp [hn]
    · simp [Ne.symm hn]

theorem Distinct.get?_eq_some (h : Distinct ms) {v : α} (hmem : (name, v) ∈ ms) :
    get? name ms = some v := by
  induction ms with
  | nil => cases hmem
  | cons first rest ih =>
    obtain ⟨n, w⟩ := first
    obtain ⟨hfirst, hrest⟩ := List.nodup_cons.mp h
    rw [get?_cons]
    rcases List.mem_cons.mp hmem with heq | hmem
    · cases heq
      exact if_pos rfl
    · have hne : n ≠ name := by
        rintro rfl
        exact hfirst (List.mem_map.mpr ⟨_, hmem, rfl⟩)
      rw [if_neg hne]
      exact ih hrest hmem

theorem names_insert {v : α} : (insert name v ms).map Prod.fst =
    if name ∈ ms.map Prod.fst then ms.map Prod.fst else ms.map Prod.fst ++ [name] := by
  induction ms with
  | nil => simp [insert]
  | cons first rest ih =>
    obtain ⟨n, w⟩ := first
    rw [insert]
    by_cases hn : n = name
    · simp [hn]
    · rw [if_neg (by simpa using hn), List.map_cons, ih]
      by_cases hmem : name ∈ rest.map Prod.fst
      · simp [hmem]
      · simp [hmem, Ne.symm hn]

theorem Distinct.insert (h : Distinct ms) (v : α) : Distinct (insert name v ms) := by
  rw [Distinct, names_insert]
  split
  · exact h
  · rename_i hnew
    exact List.nodup_append.mpr ⟨h, List.nodup_singleton name, fun a ha b hb => by
      rintro rfl
      exact hnew (List.mem_singleton.mp hb ▸ ha)⟩

/-- What is put in goes before what was there. -/
theorem get?_merge (h : Distinct more) : get? name (merge ms more) =
    (get? name more).or (get? name ms) := by
  induction more generalizing ms with
  | nil => rfl
  | cons first rest ih =>
    obtain ⟨n, v⟩ := first
    obtain ⟨hfirst, hrest⟩ := List.nodup_cons.mp h
    have hstep : get? name (merge ms ((n, v) :: rest)) =
        (get? name rest).or (get? name (insert n v ms)) := ih hrest
    rw [hstep, get?_cons, get?_insert]
    by_cases hn : n = name
    · subst hn
      rw [get?_eq_none_iff.mpr hfirst]
      simp
    · simp [hn]

theorem get?_ofList_cons {n : String} {v : α} {rest : List (String × α)} :
    get? name (ofList ((n, v) :: rest)) =
      (get? name (ofList rest)).or (if n = name then some v else none) := by
  have hfold (todo acc : List (String × α)) : get? name (merge acc todo) =
      (get? name (ofList todo)).or (get? name acc) := by
    induction todo generalizing acc with
    | nil => rfl
    | cons first others ih =>
      have hstep : get? name (merge acc (first :: others)) =
          get? name (merge (insert first.1 first.2 acc) others) := rfl
      have hnil : get? name (ofList (first :: others)) =
          get? name (merge (insert first.1 first.2 []) others) := rfl
      rw [hstep, hnil, ih, ih (insert first.1 first.2 []), get?_insert, get?_insert]
      by_cases hfirst : first.1 = name <;> simp [hfirst, get?]
  have hstep : get? name (ofList ((n, v) :: rest)) =
      get? name (merge (insert n v []) rest) := rfl
  rw [hstep, hfold, get?_insert]
  rfl

/-- A value that replaces the only one of its name is the one that is found. -/
theorem get?_ofList_insert {n : String} {v : α} (h : (ms.map Prod.fst).count n ≤ 1) :
    get? name (ofList (insert n v ms)) = if n = name then some v else get? name (ofList ms) := by
  induction ms with
  | nil => simp [insert, ofList, get?]
  | cons first rest ih =>
    obtain ⟨k, w⟩ := first
    rw [insert]
    split
    · rename_i hk
      obtain rfl : k = n := eq_of_beq hk
      have hnone : get? k (ofList rest) = none := by
        refine get?_eq_none_iff.mpr fun hmem => ?_
        obtain ⟨m, hm, hname⟩ := List.mem_map.mp hmem
        have hcount : (rest.map Prod.fst).count k = 0 := by
          rw [List.map_cons, List.count_cons_self] at h
          omega
        refine List.count_eq_zero.mp hcount ?_
        rw [← hname]
        exact List.mem_map_of_mem (mem_ofList hm)
      rw [get?_ofList_cons, get?_ofList_cons]
      by_cases hname : k = name
      · subst hname
        simp [hnone]
      · simp [hname]
    · rename_i hk
      have hne : k ≠ n := by simpa using hk
      have hrest : (rest.map Prod.fst).count n ≤ 1 := by
        rwa [List.map_cons, List.count_cons_of_ne hne] at h
      rw [get?_ofList_cons, get?_ofList_cons, ih hrest]
      by_cases hname : n = name
      · simp [hname]
      · simp [hname]

theorem count_insert_le {n : String} {v : α} {k : String} (h : (ms.map Prod.fst).count k ≤ 1) :
    ((insert n v ms).map Prod.fst).count k ≤ 1 := by
  rw [names_insert]
  split
  · exact h
  · rename_i hnew
    rw [List.count_append, List.count_singleton]
    split
    · rename_i hk
      obtain rfl : n = k := eq_of_beq hk
      rw [List.count_eq_zero.mpr hnew]
    · simpa using h

theorem get?_ofList_merge (hmore : Distinct more)
    (h : ∀ m ∈ more, (ms.map Prod.fst).count m.1 ≤ 1) :
    get? name (ofList (merge ms more)) = (get? name more).or (get? name (ofList ms)) := by
  induction more generalizing ms with
  | nil => rfl
  | cons first rest ih =>
    obtain ⟨n, v⟩ := first
    obtain ⟨hfirst, hrest⟩ := List.nodup_cons.mp hmore
    have hstep : get? name (ofList (merge ms ((n, v) :: rest))) =
        (get? name rest).or (get? name (ofList (insert n v ms))) :=
      ih hrest fun m hm => count_insert_le (h m (List.mem_cons_of_mem _ hm))
    rw [hstep, get?_ofList_insert (h _ List.mem_cons_self), get?_cons]
    by_cases hn : n = name
    · subst hn
      rw [get?_eq_none_iff.mpr hfirst]
      simp
    · simp [hn]

/-- Values chosen by the names of members are found under these names. -/
theorem get?_filterMap {f : String → Option β} :
    get? name (ms.filterMap fun m => (f m.1).map (m.1, ·)) =
      (get? name ms).bind fun _ => f name := by
  induction ms with
  | nil => rfl
  | cons first rest ih =>
    obtain ⟨n, v⟩ := first
    rw [List.filterMap_cons, get?_cons]
    by_cases hn : n = name
    · subst hn
      cases hf : f n with
      | none => simp [ih, hf]
      | some w => simp [get?_cons]
    · cases hf : f n with
      | none => simp [ih, hn]
      | some w => simp [get?_cons, hn, ih]

theorem Distinct.filterMap {f : String → Option β} (h : Distinct ms) :
    Distinct (ms.filterMap fun m => (f m.1).map (m.1, ·)) := by
  refine List.Nodup.sublist ?_ h
  induction ms with
  | nil => exact .slnil
  | cons first rest ih =>
    rw [List.filterMap_cons]
    cases f first.1 with
    | none => exact (ih (List.nodup_cons.mp h).2).cons _
    | some w => exact (ih (List.nodup_cons.mp h).2).cons_cons _

end Members

namespace Sampler

/-- The keyframes of all tracks of a target and a property, in the order of the tracks. -/
def keyframesFor (tracks : List (Track R)) (target property : String) : List (Keyframe R) :=
  (tracks.filter fun t => t.target == target && t.property == property).flatMap Track.keyframes

/-- The keyframes that are kept under a target and a property. -/
def keptFor (kept : List (String × List (String × List (Keyframe R)))) (target property : String) :
    List (Keyframe R) :=
  (Members.get? property ((Members.get? target kept).getD [])).getD []

theorem keptFor_addTrack (kept : List (String × List (String × List (Keyframe R)))) (t : Track R)
    (target property : String) : keptFor (addTrack kept t) target property =
      keptFor kept target property ++ keyframesFor [t] target property := by
  rw [keptFor, addTrack, Members.get?_insert]
  by_cases htarget : t.target = target
  · subst htarget
    rw [if_pos rfl, Option.getD_some, Members.get?_insert]
    by_cases hproperty : t.property = property
    · subst hproperty
      simp [keptFor, keyframesFor]
    · simp [keptFor, keyframesFor, hproperty]
  · simp [keptFor, keyframesFor, htarget]

theorem keyframesFor_append (tracks more : List (Track R)) (target property : String) :
    keyframesFor (tracks ++ more) target property =
      keyframesFor tracks target property ++ keyframesFor more target property := by
  simp [keyframesFor]

theorem keptFor_merged (tracks : List (Track R)) (target property : String) :
    keptFor (merged tracks) target property = keyframesFor tracks target property := by
  have hfold (todo : List (Track R)) (kept : List (String × List (String × List (Keyframe R)))) :
      keptFor (todo.foldl addTrack kept) target property =
        keptFor kept target property ++ keyframesFor todo target property := by
    induction todo generalizing kept with
    | nil => simp [keyframesFor]
    | cons t rest ih =>
      have hsplit : keyframesFor (t :: rest) target property =
          keyframesFor [t] target property ++ keyframesFor rest target property :=
        keyframesFor_append [t] rest target property
      rw [List.foldl_cons, ih, keptFor_addTrack, hsplit, List.append_assoc]
  exact hfold tracks []

theorem distinct_getD {kept : List (String × List (String × List (Keyframe R)))}
    (h : ∀ p ∈ kept, Members.Distinct p.2) (target : String) :
    Members.Distinct ((Members.get? target kept).getD []) := by
  cases hget : Members.get? target kept with
  | none => exact List.nodup_nil
  | some own => exact h _ (Members.mem_of_get? hget)

theorem distinct_merged (tracks : List (Track R)) : ∀ p ∈ merged tracks, Members.Distinct p.2 := by
  have hfold (todo : List (Track R)) (kept : List (String × List (String × List (Keyframe R))))
      (hkept : ∀ p ∈ kept, Members.Distinct p.2) :
      ∀ p ∈ todo.foldl addTrack kept, Members.Distinct p.2 := by
    induction todo generalizing kept with
    | nil => exact hkept
    | cons t rest ih =>
      refine ih (addTrack kept t) fun p hp => ?_
      rcases Members.mem_insert hp with rfl | hp
      · exact (distinct_getD hkept t.target).insert _
      · exact hkept p hp
  exact hfold tracks [] fun p hp => by simp at hp

theorem mem_keyframes_of_mem_keyframesFor {tracks : List (Track R)} {target property : String}
    {k : Keyframe R} (h : k ∈ keyframesFor tracks target property) :
    ∃ t ∈ tracks, t.target = target ∧ t.property = property ∧ k ∈ t.keyframes := by
  obtain ⟨t, ht, hk⟩ := List.mem_flatMap.mp h
  obtain ⟨ht, hnamed⟩ := List.mem_filter.mp ht
  obtain ⟨htarget, hproperty⟩ := Bool.and_eq_true_iff.mp hnamed
  exact ⟨t, ht, eq_of_beq htarget, eq_of_beq hproperty, hk⟩

theorem keyframesFor_ne_nil {tracks : List (Track R)} {target property : String} :
    keyframesFor tracks target property ≠ [] ↔
      ∃ t ∈ tracks, t.target = target ∧ t.property = property ∧ t.keyframes ≠ [] := by
  constructor
  · intro h
    obtain ⟨k, hk⟩ := List.exists_mem_of_ne_nil _ h
    obtain ⟨t, ht, htarget, hproperty, hkt⟩ := mem_keyframes_of_mem_keyframesFor hk
    exact ⟨t, ht, htarget, hproperty, List.ne_nil_of_mem hkt⟩
  · intro h
    obtain ⟨t, ht, rfl, rfl, hne⟩ := h
    obtain ⟨k, hk⟩ := List.exists_mem_of_ne_nil _ hne
    refine List.ne_nil_of_mem (List.mem_flatMap.mpr ⟨t, List.mem_filter.mpr ⟨ht, ?_⟩, hk⟩)
    simp

variable [Scalar R]

theorem tracksFor_arranged (tracks : List (Track R)) (target : String) :
    (arranged tracks).tracksFor target = ((Members.get? target (merged tracks)).getD []).map
      fun q => (q.1, Order.sort Keyframe.startsBefore q.2) := by
  rw [tracksFor, arranged, Members.get?_map]
  cases Members.get? target (merged tracks) <;> rfl

theorem distinct_arranged (tracks : List (Track R)) (target : String) :
    Members.Distinct ((arranged tracks).tracksFor target) := by
  rw [tracksFor_arranged, Members.Distinct, List.map_map]
  exact distinct_getD (distinct_merged tracks) target

theorem get?_arranged (tracks : List (Track R)) (target property : String) :
    (Members.get? property ((arranged tracks).tracksFor target)).getD [] =
      Order.sort Keyframe.startsBefore (keyframesFor tracks target property) := by
  rw [tracksFor_arranged, Members.get?_map, ← keptFor_merged, keptFor]
  cases Members.get? property ((Members.get? target (merged tracks)).getD []) <;> rfl

/-- Tracks whose keyframes start at whole frames can be sampled. Under each target every property
stands once, with the keyframes of all its tracks in the order of their starts. -/
theorem ofTracks_of_whole {tracks : List (Track R)}
    (hstarts : ∀ t ∈ tracks, ∀ k ∈ t.keyframes, ∃ n : Int, k.start = .number (.int n)) :
    ∃ s, ofTracks tracks = .ok s ∧ ∀ target, Members.Distinct (s.tracksFor target) ∧
      ∀ property, (Members.get? property (s.tracksFor target)).getD [] =
        Order.sort Keyframe.startsBefore (keyframesFor tracks target property) := by
  refine ⟨arranged tracks, ofTracks_of_ordered fun t ht k hk => ?_,
    fun target => ⟨distinct_arranged tracks target, get?_arranged tracks target⟩⟩
  obtain ⟨n, hn⟩ := hstarts t ht k hk
  exact ⟨.int n, hn, by simp [Number.isOrdered, Number.eq, Number.exact, Exact.eq]⟩

/-- The sampled values of a target stand each under its property, once. -/
theorem sampleTarget_eq_ok [Trig R] {s : Sampler R} {settings : Settings R} {target : String}
    {frame : Number R} (hdistinct : Members.Distinct (s.tracksFor target))
    {values : String → Option (Quantity R)}
    (hvalues : ∀ property, s.sampleProperty settings target property frame =
      .ok (values property)) :
    ∃ sampled, s.sampleTarget settings target frame = .ok sampled ∧ Members.Distinct sampled ∧
      ∀ property, Members.get? property sampled = values property := by
  have hsamples : (s.tracksFor target).mapM (fun p => do
      let value ← Track.sample settings p.2 frame
      return value.map (p.1, ·)) =
        .ok ((s.tracksFor target).map fun p => (values p.1).map (p.1, ·)) := by
    refine mapM_eq_ok.mpr (List.forall₂_map_right_iff.mpr (List.forall₂_same.mpr fun p hp => ?_))
    have hsample := hvalues p.1
    rw [sampleProperty, hdistinct.get?_eq_some hp, Option.getD_some] at hsample
    rw [hsample]
    rfl
  refine ⟨(s.tracksFor target).filterMap fun p => (values p.1).map (p.1, ·), ?_,
    hdistinct.filterMap, fun property => ?_⟩
  · rw [sampleTarget, hsamples, ok_bind, List.filterMap_map]
    rfl
  · rw [Members.get?_filterMap]
    cases hget : Members.get? property (s.tracksFor target) with
    | some ks => rfl
    | none =>
      have hnone := hvalues property
      rw [sampleProperty, hget] at hnone
      exact Except.ok.inj hnone

/-- A value that cannot be sampled leaves the target without values. -/
theorem not_returns_sampleTarget [Trig R] {s : Sampler R} {settings : Settings R}
    {target property : String} {frame : Number R} {fault : Fault}
    (hfault : s.sampleProperty settings target property frame = .error fault) :
    ¬ Returns (s.sampleTarget settings target frame) := by
  intro hreturns
  cases hget : Members.get? property (s.tracksFor target) with
  | none =>
    rw [sampleProperty, hget] at hfault
    cases hfault
  | some ks =>
    rw [sampleProperty, hget, Option.getD_some] at hfault
    obtain ⟨value, hvalue⟩ := returns_mapM.mp hreturns.of_bind _ (Members.mem_of_get? hget)
    rw [hfault] at hvalue
    cases hvalue

end Sampler

end Storyboard
