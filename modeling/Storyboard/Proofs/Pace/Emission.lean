import Storyboard.Proofs.Flattening.Target
import Storyboard.Proofs.Pace.Flattening

namespace Storyboard

open Flattening

variable {R : Type}

/-- Keyframes at the same frame with the same easing and near values. -/
structure Keyframe.Near (k k' : Keyframe R) : Prop where
  start : k'.start = k.start
  easing : k'.easing = k.easing
  value : k.value.Near k'.value

/-- Tracks of the same property of the same target, each keyframe of the second with the easing and
a value near that of one of the first. -/
structure Track.Like (t t' : Track R) : Prop where
  target : t'.target = t.target
  property : t'.property = t.property
  keyframes : ∀ k' ∈ t'.keyframes, ∃ k ∈ t.keyframes, k'.easing = k.easing ∧ k.value.Near k'.value

/-- The tracks of something declared at some speeds and at others. They stay what they are, at the
same frames unless they belong to an animation whose frames count at these speeds. -/
def Flattening.Cause.Keeps (cause : Cause R) (out out' : List (Track R)) : Prop :=
  List.Forall₂ (fun t t' => t.Like t' ∧ ((∀ e, cause ≠ .entry e) →
    t'.keyframes.map Keyframe.start = t.keyframes.map Keyframe.start)) out out'

theorem Keyframe.Near.starts_eq {ks ks' : List (Keyframe R)}
    (h : List.Forall₂ Keyframe.Near ks ks') : ks'.map Keyframe.start = ks.map Keyframe.start := by
  rw [← List.forall₂_eq_eq_eq, List.forall₂_map_left_iff, List.forall₂_map_right_iff]
  exact (h.imp fun _ _ hk => hk.start.symm).flip.imp fun _ _ hk => hk.symm

namespace Track

theorem placed_near {frame : Quantity R → Outcome Int} {ks ks' out : List (Keyframe R)}
    (h : List.Forall₂ Keyframe.Near ks ks') (hplaced : placed frame ks = .ok out) :
    ∃ out', placed frame ks' = .ok out' ∧ List.Forall₂ Keyframe.Near out out' := by
  obtain ⟨framed, hframed, rfl⟩ := Outcome.map_eq_ok.mp hplaced
  obtain ⟨framed', hframed', hnear⟩ : ∃ framed', List.Forall₂
      (fun k p => (frame k.start).map (fun f => (f, k)) = .ok p) ks' framed' ∧
      List.Forall₂ (fun p p' => p'.1 = p.1 ∧ Keyframe.Near p.2 p'.2) framed framed' := by
    refine forall₂_transfer h (Outcome.mapM_eq_ok.mp hframed) fun k k' p hk hp => ?_
    obtain ⟨n, hn, rfl⟩ := Outcome.map_eq_ok.mp hp
    exact ⟨(n, k'), by rw [hk.start, hn]; rfl, rfl, hk⟩
  refine ⟨ordered framed',
    Outcome.map_eq_ok.mpr ⟨framed', Outcome.mapM_eq_ok.mpr hframed', rfl⟩, ?_⟩
  rw [ordered, ordered, List.forall₂_map_left_iff, List.forall₂_map_right_iff]
  refine (Order.sort_forall₂ ?_ hnear).imp ?_
  · intro a b a' b' ha hb
    rw [ha.1, hb.1]
  · intro p p' hp
    refine ⟨?_, hp.2.easing, hp.2.value⟩
    rw [Keyframe.startingAt, Keyframe.startingAt, hp.1]

theorem placed_ok {frame : Quantity R → Outcome Int} {ks : List (Keyframe R)}
    (h : ∀ k ∈ ks, ∃ n, frame k.start = .ok n) : ∃ out, placed frame ks = .ok out := by
  obtain ⟨framed, hframed⟩ :=
    Outcome.mapM_ok (f := fun k : Keyframe R => (frame k.start).map fun n => (n, k)) fun k hk => by
      obtain ⟨n, hn⟩ := h k hk
      exact ⟨(n, k), by rw [hn]; rfl⟩
  exact ⟨_, Outcome.map_eq_ok.mpr ⟨framed, hframed, rfl⟩⟩

/-- Keyframes that have frames one way have them the other way, if every start has. -/
theorem placed_repaced {frame frame' : Quantity R → Outcome Int} {ks ks' out : List (Keyframe R)}
    (h : List.Forall₂ Keyframe.Near ks ks')
    (hframe : ∀ q n, frame q = .ok n → ∃ n', frame' q = .ok n')
    (hplaced : placed frame ks = .ok out) :
    ∃ out', placed frame' ks' = .ok out' ∧
      (∀ k' ∈ out', ∃ k ∈ out, k'.easing = k.easing ∧ k.value.Near k'.value) ∧
      (frame' = frame → out'.map Keyframe.start = out.map Keyframe.start) := by
  have hbecomes := placed_eq_ok hplaced
  have hframes : ∀ k' ∈ ks', ∃ n, frame' k'.start = .ok n := by
    intro k' hk'
    obtain ⟨k, hk, hnear⟩ := exists_related_of_mem h hk'
    obtain ⟨-, -, n, hn, -⟩ := hbecomes.exists_compiled hk
    rw [hnear.start]
    exact hframe _ _ hn
  obtain ⟨out', hout'⟩ := placed_ok hframes
  refine ⟨out', hout', ?_, ?_⟩
  · intro x hx
    obtain ⟨k', hk', n', -, rfl⟩ := (placed_eq_ok hout').exists_source hx
    obtain ⟨k, hk, hnear⟩ := exists_related_of_mem h hk'
    obtain ⟨y, hy, n, -, rfl⟩ := hbecomes.exists_compiled hk
    exact ⟨_, hy, hnear.easing, hnear.value⟩
  · rintro rfl
    obtain ⟨out'', hout'', hnear⟩ := placed_near h hplaced
    obtain rfl : out' = out'' := Except.ok.inj (hout'.symm.trans hout'')
    exact Keyframe.Near.starts_eq hnear

end Track

section

variable [Scalar R]

theorem EffectUse.keyframesFrom_near {o o' : Object R} (h : o'.steady = o.steady)
    {source property : String} {start duration : Int} {index : Nat}
    {ks : List (EffectKeyframe R)} {out : List (Keyframe R)}
    (hout : keyframesFrom source property (some o.staticProps) start duration index ks = .ok out) :
    ∃ out', keyframesFrom source property (some o'.staticProps) start duration index ks =
      .ok out' ∧ List.Forall₂ Keyframe.Near out out' := by
  induction ks generalizing index out with
  | nil =>
    cases hout
    exact ⟨[], rfl, .nil⟩
  | cons k rest ih =>
    rw [keyframesFrom] at hout
    obtain ⟨first, hfirst, hout⟩ := Outcome.bind_eq_ok.mp hout
    obtain ⟨others, hothers, hout⟩ := Outcome.bind_eq_ok.mp hout
    rw [Outcome.pure_eq_ok] at hout
    subst hout
    obtain ⟨_, heasing, hfirst⟩ := Outcome.bind_eq_ok.mp hfirst
    obtain ⟨value, hvalue, hfirst⟩ := Outcome.bind_eq_ok.mp hfirst
    obtain ⟨frame, hframe, hfirst⟩ := Outcome.bind_eq_ok.mp hfirst
    rw [Outcome.pure_eq_ok] at hfirst
    subst hfirst
    obtain ⟨value', hvalue', hnear⟩ := Object.effectValue_near h hvalue
    obtain ⟨others', hothers', hall⟩ := ih hothers
    refine ⟨⟨.number (.int frame), value', k.easing, []⟩ :: others', ?_,
      .cons ⟨rfl, rfl, hnear⟩ hall⟩
    rw [keyframesFrom]
    refine Outcome.bind_eq_ok.mpr ⟨_, ?_, Outcome.bind_eq_ok.mpr ⟨others', hothers', rfl⟩⟩
    refine Outcome.bind_eq_ok.mpr ⟨_, heasing, Outcome.bind_eq_ok.mpr ⟨value', hvalue', ?_⟩⟩
    exact Outcome.bind_eq_ok.mpr ⟨frame, hframe, rfl⟩

theorem EffectUse.tracksOf_near {o o' : Object R} (h : o'.steady = o.steady) {use : EffectUse R}
    {effect : Effect R} {fps : Number R} {start : Int} {tracks : List (Track R)}
    (htracks : use.tracksOf effect fps (some o.staticProps) start = .ok tracks) :
    ∃ tracks', use.tracksOf effect fps (some o'.staticProps) start = .ok tracks' ∧
      List.Forall₂ (fun t t' => t'.target = t.target ∧ t'.property = t.property ∧
        List.Forall₂ Keyframe.Near t.keyframes t'.keyframes) tracks tracks' := by
  obtain ⟨duration, hduration, hmap⟩ := Outcome.bind_eq_ok.mp htracks
  have hsame : List.Forall₂ (fun p p' => p' = p) effect.properties effect.properties :=
    List.forall₂_same.mpr fun p _ => rfl
  obtain ⟨tracks', htracks', hnear⟩ : ∃ tracks', List.Forall₂ (fun p t => (do
        let keyframes ← keyframesFrom ("effect " ++ quote use.effect) p.1 (some o'.staticProps)
          start duration 0 p.2
        return (⟨use.target, p.1, keyframes, []⟩ : Track R)) = .ok t) effect.properties tracks' ∧
      List.Forall₂ (fun t t' => t'.target = t.target ∧ t'.property = t.property ∧
        List.Forall₂ Keyframe.Near t.keyframes t'.keyframes) tracks tracks' := by
    refine forall₂_transfer hsame (Outcome.mapM_eq_ok.mp hmap) fun p p' t hp ht => ?_
    subst hp
    obtain ⟨keyframes, hkeyframes, ht⟩ := Outcome.bind_eq_ok.mp ht
    rw [Outcome.pure_eq_ok] at ht
    subst ht
    obtain ⟨keyframes', hkeyframes', hnear⟩ := keyframesFrom_near h hkeyframes
    exact ⟨_, Outcome.bind_eq_ok.mpr ⟨keyframes', hkeyframes', rfl⟩, rfl, rfl, hnear⟩
  exact ⟨tracks', Outcome.bind_eq_ok.mpr ⟨duration, hduration, Outcome.mapM_eq_ok.mpr htracks'⟩,
    hnear⟩

end

namespace Flattening

theorem resolveTarget_repaced {objects objects' : List (Object Rat)} {target scope : String}
    {o : Object Rat} (hobjects : Object.steadyAll objects' = Object.steadyAll objects)
    (h : resolveTarget target objects scope = .ok o) :
    ∃ o', resolveTarget target objects' scope = .ok o' ∧ o'.steady = o.steady := by
  have hsteady (os : List (Object Rat)) : resolveTarget target (Object.steadyAll os) scope =
      (resolveTarget target os scope).map Object.steady := by
    rw [resolveTarget, resolveTarget, Object.find_steadyAll, Object.descendants_steadyAll]
    cases Address.find os target scope with
    | some found => rfl
    | none =>
      rcases Address.descendants os target with _ | ⟨x, _ | ⟨y, rest⟩⟩
      · rfl
      · rfl
      · have hids : Object.id ∘ Object.steady = (Object.id : Object Rat → Option String) :=
          funext Object.steady_id
        change Except.error (Fault.targetAmbiguous target scope
          (((x :: y :: rest).map Object.steady).filterMap Object.id)) = _
        rw [List.filterMap_map, hids]
        rfl
  have hsame := hsteady objects'
  rw [hobjects, hsteady objects, h] at hsame
  obtain ⟨o', ho', hsame⟩ := Outcome.map_eq_ok.mp hsame.symm
  exact ⟨o', ho', hsame⟩

variable {d d' : Disk} {library library' : EffectLibrary Rat} {fps : Number Rat}

theorem EmitsEffect.repaced {use : EffectUse Rat} {target target' : Object Rat} {start : Int}
    {frames frames' : FrameMap Rat} {out : List (Track Rat)}
    (hlibrary : ∀ name e, library.Gives d name e → library'.Gives d' name e)
    (htarget : target'.steady = target.steady)
    (hframes : ∀ n f, frames.apply n = .ok f → ∃ f', frames'.apply n = .ok f')
    (h : EmitsEffect d library fps use target start frames out) :
    ∃ out', EmitsEffect d' library' fps use target' start frames' out' ∧
      List.Forall₂ (fun t t' => t.Like t' ∧ (frames' = frames →
        t'.keyframes.map Keyframe.start = t.keyframes.map Keyframe.start)) out out' := by
  obtain ⟨effect, tracks, hgives, htracks, hall⟩ := h
  obtain ⟨tracks', htracks', hnear⟩ := EffectUse.tracksOf_near htarget htracks
  have hframe : ∀ q n, effectFrame frames q = .ok n → ∃ n', effectFrame frames' q = .ok n' := by
    intro q n hq
    obtain ⟨f, hf, hn⟩ := Outcome.bind_eq_ok.mp hq
    obtain ⟨n', hn'⟩ := hframes f n hn
    exact ⟨n', Outcome.bind_eq_ok.mpr ⟨f, hf, hn'⟩⟩
  obtain ⟨out', hout', hkeeps⟩ : ∃ out', List.Forall₂ (fun t t' => ∃ keyframes,
        Track.placed (effectFrame frames') t.keyframes = .ok keyframes ∧
          t' = { t with keyframes := keyframes }) tracks' out' ∧
      List.Forall₂ (fun t t' => t.Like t' ∧ (frames' = frames →
        t'.keyframes.map Keyframe.start = t.keyframes.map Keyframe.start)) out out' := by
    refine forall₂_transfer hnear hall fun t t' u ht hu => ?_
    obtain ⟨keyframes, hplaced, rfl⟩ := hu
    obtain ⟨keyframes', hplaced', hlike, hstarts⟩ := Track.placed_repaced ht.2.2 hframe hplaced
    exact ⟨_, ⟨keyframes', hplaced', rfl⟩, ⟨ht.1, ht.2.1, hlike⟩,
      fun hsame => hstarts (by rw [hsame])⟩
  exact ⟨out', ⟨effect, tracks', hlibrary _ _ hgives, htracks', hout'⟩, hkeeps⟩

theorem EmitsEntry.repaced {objects objects' : List (Object Rat)} {path : String}
    {frames frames' : FrameMap Rat} {entry : Entry Rat} {out : List (Track Rat)}
    (hlibrary : ∀ name e, library.Gives d name e → library'.Gives d' name e)
    (hobjects : Object.steadyAll objects' = Object.steadyAll objects)
    (hframes : ∀ n f, frames.apply n = .ok f → ∃ f', frames'.apply n = .ok f')
    (h : EmitsEntry d library fps objects path frames entry out) :
    ∃ out', EmitsEntry d' library' fps objects' path frames' entry out' ∧
      List.Forall₂ (fun t t' => t.Like t' ∧ (frames' = frames →
        t'.keyframes.map Keyframe.start = t.keyframes.map Keyframe.start)) out out' := by
  obtain ⟨target, htarget, h⟩ := h
  obtain ⟨target', htarget', hsame⟩ := resolveTarget_repaced hobjects htarget
  have hid : targetId target' = targetId target := by
    rw [targetId, ← Object.steady_id, hsame, Object.steady_id, targetId]
  cases entry with
  | effect use =>
    obtain ⟨start, hstart, h⟩ := h
    obtain ⟨out', hout', hkeeps⟩ := h.repaced hlibrary hsame hframes
    refine ⟨out', ⟨target', htarget', start, hstart, ?_⟩, hkeeps⟩
    rw [hid]
    exact hout'
  | track t =>
    obtain ⟨keyframes, hplaced, rfl⟩ := h
    have hframe : ∀ q n, entryFrame fps frames q = .ok n →
        ∃ n', entryFrame fps frames' q = .ok n' := by
      intro q n hq
      obtain ⟨f, hf, hn⟩ := Outcome.bind_eq_ok.mp hq
      obtain ⟨n', hn'⟩ := hframes f n hn
      exact ⟨n', Outcome.bind_eq_ok.mpr ⟨f, hf, hn'⟩⟩
    have hrefl : List.Forall₂ Keyframe.Near t.keyframes t.keyframes :=
      List.forall₂_same.mpr fun k _ => ⟨rfl, rfl, .inl rfl⟩
    obtain ⟨keyframes', hplaced', hlike, hstarts⟩ := Track.placed_repaced hrefl hframe hplaced
    refine ⟨_, ⟨target', htarget', keyframes', hplaced', rfl⟩, .cons ⟨⟨hid, rfl, hlike⟩, ?_⟩ .nil⟩
    intro hsame
    exact hstarts (by rw [hsame])

/-- The tracks of a transition count at no speed, so that they are at the same frames. -/
theorem EmitsTransition.repaced (cause : Cause Rat) {group group' : Object Rat} {start : Int}
    {t : Transition Rat} {out : List (Track Rat)}
    (hlibrary : ∀ name e, library.Gives d name e → library'.Gives d' name e)
    (hgroup : group'.steady = group.steady)
    (h : EmitsTransition d library fps group start t out) :
    ∃ out', EmitsTransition d' library' fps group' start t out' ∧ cause.Keeps out out' := by
  obtain ⟨path, hpath, h⟩ := h
  have hpath' : group'.id = some path := by
    rw [← Object.steady_id, hgroup, Object.steady_id, hpath]
  obtain ⟨out', hout', hkeeps⟩ := h.repaced hlibrary hgroup fun n f hf => ⟨f, hf⟩
  exact ⟨out', ⟨path, hpath', hout'⟩, hkeeps.imp fun t t' ht => ⟨ht.1, fun _ => ht.2 rfl⟩⟩

/-- The compiled group at the end of a way is at other speeds one that differs in speeds only. -/
theorem absolute_last_repaced {root root' outer : TimeScope Rat} {way' around : List (Object Rat)}
    {o c : Object Rat} (hway : way'.map Object.steady = (around ++ [o]).map Object.steady)
    (hstart : root'.start = root.start) (hspeed : 0 < root'.speed.value)
    (hforward : ∀ o ∈ way', ∀ v, o.groupInfo.speed = some v → 0 < v)
    (houter : TimeScope.along fps root around = .ok outer)
    (hc : absolute fps (Level.along around) outer o = .ok c) :
    ∃ around' o' outer' c', way' = around' ++ [o'] ∧
      TimeScope.along fps root' around' = .ok outer' ∧
      absolute fps (Level.along around') outer' o' = .ok c' ∧ c'.steady = c.steady ∧
      o'.groupInfo.duration = o.groupInfo.duration := by
  rw [List.map_append] at hway
  obtain ⟨around', o', hw', haround, ho⟩ := concat_of_map_eq hway
  obtain ⟨outer', houter', hstarts, -⟩ := TimeScope.along_steady haround hstart hspeed
    (fun x hx => hforward x (by rw [hw']; exact List.mem_append_left _ hx)) houter
  have hlevels : Level.along around' = Level.along around := by
    rw [← along_map_steady, haround, along_map_steady]
  rw [← hlevels] at hc
  obtain ⟨c', hc', hsteady⟩ := absolute_repaced hstarts ho hc
  refine ⟨around', o', outer', c', hw', houter', hc', hsteady, ?_⟩
  have hinfo : o'.groupInfo.steady = o.groupInfo.steady := by
    rw [← Object.steady_groupInfo, ho, Object.steady_groupInfo]
  have hdurations : o'.groupInfo.steady.duration = o.groupInfo.steady.duration := by rw [hinfo]
  exact hdurations

/-- The level at the end of a way is at other speeds one that differs in speeds only, and starts at
the same frame. -/
theorem level_repaced {root root' own : TimeScope Rat}
    {objects objects' way way' level : List (Object Rat)} (hobjects : Object.steadyAll objects' = Object.steadyAll objects)
    (hway : way'.map Object.steady = way.map Object.steady) (hstart : root'.start = root.start)
    (hspeed : 0 < root'.speed.value)
    (hforward : ∀ o ∈ way', ∀ v, o.groupInfo.speed = some v → 0 < v)
    (hown : TimeScope.along fps root way = .ok own)
    (hlevel : absoluteAll fps (Level.along way) own (opened Object.children objects way) =
      .ok level) :
    ∃ own' level', TimeScope.along fps root' way' = .ok own' ∧
      absoluteAll fps (Level.along way') own' (opened Object.children objects' way') =
        .ok level' ∧
      Level.along way' = Level.along way ∧ own'.start = own.start ∧ 0 < own'.speed.value ∧
      Object.steadyAll level' = Object.steadyAll level := by
  have halong : Level.along way' = Level.along way := by
    rw [← along_map_steady, hway, along_map_steady]
  obtain ⟨own', hown', hstart', hspeed'⟩ :=
    TimeScope.along_steady hway hstart hspeed hforward hown
  obtain ⟨level', hlevel', hsame⟩ :=
    absoluteAll_repaced hstart' (opened_repaced hobjects hway) hlevel
  rw [← halong] at hlevel'
  exact ⟨own', level', hown', hlevel', halong, hstart', hspeed', hsame⟩

/-- The tracks of a transition of the compiled group at the end of a way are at the same frames at
other speeds. -/
theorem EmitsTransition.last_repaced (cause : Cause Rat) {root root' outer : TimeScope Rat}
    {way' around : List (Object Rat)} {o c : Object Rat} {start : Int} {t : Transition Rat}
    {out : List (Track Rat)}
    (hlibrary : ∀ name e, library.Gives d name e → library'.Gives d' name e)
    (hway : way'.map Object.steady = (around ++ [o]).map Object.steady)
    (hstart : root'.start = root.start) (hspeed : 0 < root'.speed.value)
    (hforward : ∀ o ∈ way', ∀ v, o.groupInfo.speed = some v → 0 < v)
    (houter : TimeScope.along fps root around = .ok outer)
    (hc : absolute fps (Level.along around) outer o = .ok c)
    (h : EmitsTransition d library fps c start t out) :
    ∃ around' o' outer' c' out', way' = around' ++ [o'] ∧
      TimeScope.along fps root' around' = .ok outer' ∧
      absolute fps (Level.along around') outer' o' = .ok c' ∧
      o'.groupInfo.duration = o.groupInfo.duration ∧
      EmitsTransition d' library' fps c' start t out' ∧ cause.Keeps out out' := by
  obtain ⟨around', o', outer', c', hw', houter', hc', hsteady, hduration⟩ :=
    absolute_last_repaced hway hstart hspeed hforward houter hc
  obtain ⟨out', hout', hkeeps⟩ := h.repaced cause hlibrary hsteady
  exact ⟨around', o', outer', c', out', hw', houter', hc', hduration, hout', hkeeps⟩

/-- A source has tracks at all speeds above zero if it has any at some speeds, and they keep. -/
theorem Source.Emits.repaced {root root' : TimeScope Rat} {objects objects' : List (Object Rat)}
    {src src' : Source Rat} {out : List (Track Rat)}
    (hlibrary : ∀ name e, library.Gives d name e → library'.Gives d' name e)
    (hobjects : Object.steadyAll objects' = Object.steadyAll objects)
    (hsource : src'.steady = src.steady) (hstart : root'.start = root.start)
    (hspeed : 0 < root'.speed.value)
    (hforward : ∀ o ∈ src'.way, ∀ v, o.groupInfo.speed = some v → 0 < v)
    (h : src.Emits d library fps root objects out) :
    ∃ out', src'.Emits d' library' fps root' objects' out' ∧ src.cause.Keeps out out' := by
  obtain ⟨own, level, hown, hlevel, h⟩ := h
  obtain ⟨-, hway, hcause⟩ := (Source.mk.injEq _ _ _ _ _ _).mp hsource
  obtain ⟨own', level', hown', hlevel', halong, hstart', hspeed', hsame⟩ :=
    level_repaced hobjects hway hstart hspeed hforward hown hlevel
  have hlast {around : List (Object Rat)} {o : Object Rat} (hw : src.way = around ++ [o]) :
      src'.way.map Object.steady = (around ++ [o]).map Object.steady := by
    rw [← hw]
    exact hway
  obtain ⟨position, way, cause⟩ := src
  obtain ⟨position', way', cause'⟩ := src'
  obtain rfl : cause' = cause := hcause
  cases cause' with
  | entry e =>
    have hscaled (n : Int) (f : Int) (_ : (FrameMap.scaled own).apply n = .ok f) :
        ∃ f', (FrameMap.scaled own').apply n = .ok f' := TimeScope.toAbsolute_ok hspeed' n
    obtain ⟨out', hout', hkeeps⟩ := EmitsEntry.repaced hlibrary hsame hscaled h
    refine ⟨out', ⟨own', level', hown', hlevel', ?_⟩, hkeeps.imp fun t t' ht => ⟨ht.1, ?_⟩⟩
    · rw [halong]
      exact hout'
    · exact fun hne => absurd rfl (hne e)
  | resolved e =>
    obtain ⟨out', hout', hkeeps⟩ :=
      EmitsEntry.repaced hlibrary hsame (fun n f hf => ⟨f, hf⟩) h
    refine ⟨out', ⟨own', level', hown', hlevel', ?_⟩,
      hkeeps.imp fun t t' ht => ⟨ht.1, fun _ => ht.2 rfl⟩⟩
    rw [halong]
    exact hout'
  | enter t =>
    obtain ⟨around, o, outer, c, hw, houter, hc, hout⟩ := h
    obtain ⟨around', o', outer', c', out', hw', houter', hc', -, hout', hkeeps⟩ :=
      hout.last_repaced (.enter t) hlibrary (hlast hw) hstart hspeed hforward houter hc
    rw [← hstart'] at hout'
    exact ⟨out', ⟨own', level', hown', hlevel', around', o', outer', c', hw', houter', hc', hout'⟩,
      hkeeps⟩
  | leave t =>
    obtain ⟨around, o, outer, c, n, hw, houter, hc, hn, hout⟩ := h
    obtain ⟨around', o', outer', c', out', hw', houter', hc', hduration, hout', hkeeps⟩ :=
      hout.last_repaced (.leave t) hlibrary (hlast hw) hstart hspeed hforward houter hc
    rw [← hstart'] at hout'
    exact ⟨out', ⟨own', level', hown', hlevel', around', o', outer', c', n, hw', houter', hc',
      by rw [hduration, hn], hout'⟩, hkeeps⟩

end Flattening

end Storyboard
