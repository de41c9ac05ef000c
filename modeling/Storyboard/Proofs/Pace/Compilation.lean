import Storyboard.Proofs.Flattening.Completion
import Storyboard.Proofs.Pace.Emission
import Storyboard.Proofs.Pace.Instances
import Storyboard.Proofs.Tracks

namespace Storyboard

open Flattening

namespace Track

variable {settings : Settings Rat} {measurer : Measurer Rat} {objects objects' : List (Object Rat)}
  {t t' u : Track Rat}

theorem targetSize_repaced (hobjects : Object.steadyAll objects' = Object.steadyAll objects)
    (target : String) :
    targetSize settings measurer objects' target = targetSize settings measurer objects target := by
  have hsteady (os : List (Object Rat)) :
      targetSize settings measurer (Object.steadyAll os) target =
        targetSize settings measurer os target := by
    rw [targetSize, Object.find_steadyAll, targetSize]
    cases Address.find os target "" with
    | none => rfl
    | some o => exact Object.measure_steady settings measurer o
  rw [← hsteady objects', hobjects, hsteady]

theorem resolve_near {q q' r r' : Quantity Rat} {length : Number Rat} (h : q.Near q')
    (hq : Percentage.resolve q length = .ok r) (hq' : Percentage.resolve q' length = .ok r') :
    r.Near r' := by
  rcases h with rfl | ⟨m, n, rfl, rfl⟩
  · exact .inl (Except.ok.inj (hq'.symm.trans hq))
  · cases hq
    cases hq'
    exact .inr ⟨m, n, rfl, rfl⟩

/-- A keyframe with a length for a percentage. -/
def resolvedAt (length : Number Rat) (k : Keyframe Rat) : Outcome (Keyframe Rat) := do
  let value ← Percentage.resolve k.value length
  return { k with value := value }

theorem resolveClip_of_clipProperty {name : String} (h : clipProperty? t.property = some name) :
    resolveClip settings measurer objects t =
      if t.keyframes.any fun k => Percentage.isPercent k.value then do
        let size ← targetSize settings measurer objects t.target
        let keyframes ←
          t.keyframes.mapM (resolvedAt (.real ((size.along name).getD defaultSide)))
        return { t with keyframes := keyframes }
      else .ok t := by
  rw [resolveClip, h]
  rfl

theorem mapM_resolvedAt_of_not_any {length : Number Rat} {ks : List (Keyframe Rat)}
    (h : ¬ (ks.any fun k => Percentage.isPercent k.value) = true) :
    ks.mapM (resolvedAt length) = .ok ks := by
  refine Outcome.mapM_eq_ok.mpr (List.forall₂_same.mpr fun k hk => ?_)
  have hnone : Percentage.isPercent k.value = false :=
    Bool.eq_false_iff.mpr fun hpercent => h (List.any_eq_true.mpr ⟨k, hk, hpercent⟩)
  rw [resolvedAt, Percentage.resolve_of_isPercent hnone]
  rfl

theorem mapM_resolvedAt_like {length : Number Rat} {ks ks' out : List (Keyframe Rat)}
    (hks : ∀ k' ∈ ks', ∃ k ∈ ks, k'.easing = k.easing ∧ k.value.Near k'.value)
    (h : ks.mapM (resolvedAt length) = .ok out) :
    ∃ out', ks'.mapM (resolvedAt length) = .ok out' ∧
      ∀ x' ∈ out', ∃ x ∈ out, x'.easing = x.easing ∧ x.value.Near x'.value := by
  have hall : ∀ k' ∈ ks', ∃ x', resolvedAt length k' = .ok x' ∧
      ∃ x ∈ out, x'.easing = x.easing ∧ x.value.Near x'.value := by
    intro k' hk'
    obtain ⟨k, hk, heasing, hnear⟩ := hks k' hk'
    obtain ⟨x, hx, hkx⟩ := exists_related_of_mem (Outcome.mapM_eq_ok.mp h).flip hk
    obtain ⟨value, hvalue, hkx⟩ := Outcome.bind_eq_ok.mp hkx
    obtain ⟨value', hvalue'⟩ := hnear.resolve hvalue
    cases hkx
    exact ⟨_, Outcome.bind_eq_ok.mpr ⟨value', hvalue', rfl⟩, _, hx, heasing,
      resolve_near hnear hvalue hvalue'⟩
  obtain ⟨out', hout'⟩ := Outcome.mapM_ok fun k' hk' => (hall k' hk').imp fun _ hx' => hx'.1
  refine ⟨out', hout', fun x' hx' => ?_⟩
  obtain ⟨k', hk', hx'⟩ := exists_related_of_mem (Outcome.mapM_eq_ok.mp hout') hx'
  obtain ⟨_, hsame, hlike⟩ := hall k' hk'
  obtain rfl := Except.ok.inj (hx'.symm.trans hsame)
  exact hlike

/-- Lengths for percentages are found at other speeds as well, and like tracks stay like. -/
theorem resolveClip_like (hobjects : Object.steadyAll objects' = Object.steadyAll objects)
    (ht : t.Like t') (h : resolveClip settings measurer objects t = .ok u) :
    ∃ u', resolveClip settings measurer objects' t' = .ok u' ∧ u.Like u' := by
  have hsize : targetSize settings measurer objects' t'.target =
      targetSize settings measurer objects t.target := by
    rw [ht.target, targetSize_repaced hobjects]
  cases hclip : clipProperty? t.property with
  | none =>
    rw [resolveClip, hclip] at h
    cases h
    exact ⟨t', by rw [resolveClip, ht.property, hclip]; rfl, ht⟩
  | some name =>
    have hclip' : clipProperty? t'.property = some name := by rw [ht.property, hclip]
    rw [resolveClip_of_clipProperty hclip] at h
    rw [resolveClip_of_clipProperty hclip']
    by_cases hpercent : (t'.keyframes.any fun k => Percentage.isPercent k.value) = true
    · have hany : (t.keyframes.any fun k => Percentage.isPercent k.value) = true := by
        obtain ⟨k', hk', hvalue⟩ := List.any_eq_true.mp hpercent
        obtain ⟨k, hk, -, hnear⟩ := ht.keyframes k' hk'
        exact List.any_eq_true.mpr ⟨k, hk, by rw [← hnear.isPercent, hvalue]⟩
      rw [if_pos hany] at h
      rw [if_pos hpercent]
      obtain ⟨size, hfound, h⟩ := Outcome.bind_eq_ok.mp h
      obtain ⟨keyframes, hkeyframes, h⟩ := Outcome.bind_eq_ok.mp h
      obtain rfl := Outcome.pure_eq_ok.mp h
      obtain ⟨keyframes', hkeyframes', hlike⟩ := mapM_resolvedAt_like ht.keyframes hkeyframes
      refine ⟨{ t' with keyframes := keyframes' }, ?_, ht.target, ht.property, hlike⟩
      rw [hsize, hfound, Outcome.ok_bind]
      exact Outcome.bind_eq_ok.mpr ⟨keyframes', hkeyframes', rfl⟩
    · rw [if_neg hpercent]
      refine ⟨t', rfl, ?_⟩
      split at h
      · obtain ⟨size, -, h⟩ := Outcome.bind_eq_ok.mp h
        obtain ⟨keyframes, hkeyframes, h⟩ := Outcome.bind_eq_ok.mp h
        obtain rfl := Outcome.pure_eq_ok.mp h
        obtain ⟨keyframes', hkeyframes', hlike⟩ := mapM_resolvedAt_like ht.keyframes hkeyframes
        -- None of the second track's values is a percentage, so they would stay as they are.
        obtain rfl : keyframes' = t'.keyframes :=
          Except.ok.inj (hkeyframes'.symm.trans (mapM_resolvedAt_of_not_any hpercent))
        exact ⟨ht.target, ht.property, hlike⟩
      · cases h
        exact ht

theorem check_like (hobjects : Object.steadyAll objects' = Object.steadyAll objects)
    (ht : t.Like t') (h : check objects t = .ok ()) : check objects' t' = .ok () := by
  obtain ⟨o, hfind, hcan, heasings⟩ := check_eq_ok.mp h
  have hsame : (Address.find objects' t.target "").map Object.steady = some o.steady := by
    rw [← Object.find_steadyAll, hobjects, Object.find_steadyAll, hfind]
    rfl
  obtain ⟨o', hfind', ho⟩ := Option.map_eq_some_iff.mp hsame
  refine check_eq_ok.mpr ⟨o', by rw [ht.target, hfind'], ?_, fun k' hk' => ?_⟩
  · rw [ht.property, ← Object.canAnimate_steady, ho, Object.canAnimate_steady, hcan]
  · obtain ⟨k, hk, heasing, -⟩ := ht.keyframes k' hk'
    rw [heasing]
    exact heasings k hk

end Track

/-- A document and what it is compiled with, which differ from others in speeds only, all of them
above zero: that of the document, and those of groups in it and in its files. -/
structure Repaced (s s' : Studio Rat) (folder : Place) (doc doc' : Document Rat)
    (c c' : Catalog Rat) (instances instances' : List (Instance Rat)) : Prop where
  settings : s'.settings = s.settings
  measurer : s'.measurer = s.measurer
  effects : ∀ name e, c.effects.Gives s.disk name e → c'.effects.Gives s'.disk name e
  project : doc'.project = doc.project
  animations : doc'.animations = doc.animations
  of : Instance.Of s'.disk c'.definitions folder doc'.objects instances'
  same : Instance.steadyAll instances' = Instance.steadyAll instances
  speed : ∀ v, doc'.speed = some v → 0 < v
  speeds : Instance.ForwardAll instances'

theorem TimeScope.root_speed_pos {speed : Option Rat} (h : ∀ v, speed = some v → 0 < v) :
    0 < (TimeScope.root (speed.map .real)).speed.value := by
  cases speed with
  | none => exact one_pos.trans_eq Scalar.const_one.symm
  | some v => exact h v rfl

theorem Flattening.sources_repaced {objects objects' : List (Object Rat)}
    (h : Object.steadyAll objects' = Object.steadyAll objects) (entries : List (Entry Rat)) :
    List.Forall₂ (fun src src' : Source Rat => src'.steady = src.steady)
      (sourcesOfAll objects entries) (sourcesOfAll objects' entries) := by
  have hmap : (sourcesOfAll objects' entries).map Source.steady =
      (sourcesOfAll objects entries).map Source.steady := by
    rw [← sourcesOfAll_steadyAll, h, sourcesOfAll_steadyAll]
  rw [← List.forall₂_eq_eq_eq, List.forall₂_map_left_iff, List.forall₂_map_right_iff] at hmap
  exact hmap.flip

/-- The tracks of the sources of a tree at some speeds and at others, with lengths for
percentages. -/
theorem Flattening.tracks_repaced {settings : Settings Rat} {measurer : Measurer Rat}
    {d d' : Disk} {library library' : EffectLibrary Rat} {fps : Number Rat}
    {root root' : TimeScope Rat} {objects objects' flat flat' : List (Object Rat)}
    {srcs srcs' : List (Source Rat)} {emitted outs : List (List (Track Rat))}
    (hlibrary : ∀ name e, library.Gives d name e → library'.Gives d' name e)
    (hobjects : Object.steadyAll objects' = Object.steadyAll objects)
    (hflat : Object.steadyAll flat' = Object.steadyAll flat) (hstart : root'.start = root.start)
    (hspeed : 0 < root'.speed.value)
    (hforward : ∀ src' ∈ srcs', ∀ o ∈ src'.way, ∀ v, o.groupInfo.speed = some v → 0 < v)
    (hsrcs : List.Forall₂ (fun src src' : Source Rat => src'.steady = src.steady) srcs srcs')
    (hemitted : List.Forall₂ (Source.Emits d library fps root objects) srcs emitted)
    (houts : List.Forall₂ (List.Forall₂ fun t u => Track.resolveClip settings measurer flat t =
      .ok u) emitted outs) :
    ∃ emitted' outs', List.Forall₂ (Source.Emits d' library' fps root' objects') srcs' emitted' ∧
      List.Forall₂ (List.Forall₂ fun t u => Track.resolveClip settings measurer flat' t = .ok u)
        emitted' outs' ∧
      List.Forall₂ (fun so out' => so.1.cause.Keeps so.2 out') (srcs.zip outs) outs' := by
  induction hsrcs generalizing emitted outs with
  | nil =>
    cases hemitted
    cases houts
    exact ⟨[], [], .nil, .nil, .nil⟩
  | @cons src src' srcs srcs' hsrc _ ih =>
    obtain ⟨out, rest, hout, hrest, rfl⟩ := List.forall₂_cons_left_iff.mp hemitted
    obtain ⟨clipped, others, hclipped, hothers, rfl⟩ := List.forall₂_cons_left_iff.mp houts
    obtain ⟨emitted', outs', hemitted', houts', hkeeps⟩ := ih
      (fun x hx => hforward x (List.mem_cons_of_mem _ hx)) hrest hothers
    obtain ⟨out', hout', hkeep⟩ := hout.repaced hlibrary hobjects hsrc hstart hspeed
      (hforward src' List.mem_cons_self)
    obtain ⟨clipped', hclipped', hkeep'⟩ : ∃ clipped', List.Forall₂ (fun t u =>
        Track.resolveClip settings measurer flat' t = .ok u) out' clipped' ∧
        src.cause.Keeps clipped clipped' := by
      refine forall₂_transfer hkeep hclipped fun t t' u ht hu => ?_
      obtain ⟨u', hu', hlike⟩ := Track.resolveClip_like hflat ht.1 hu
      refine ⟨u', hu', hlike, fun hne => ?_⟩
      rw [(Track.resolveClip_eq_ok hu').2.2, ht.2 hne, (Track.resolveClip_eq_ok hu).2.2]
    exact ⟨out' :: emitted', clipped' :: outs', .cons hout' hemitted', .cons hclipped' houts',
      .cons hkeep' hkeeps⟩

theorem Flattening.checkAll_repaced {objects objects' : List (Object Rat)}
    {srcs : List (Source Rat)} {outs outs' : List (List (Track Rat))}
    (hobjects : Object.steadyAll objects' = Object.steadyAll objects)
    (hkeeps : List.Forall₂ (fun so out' => so.1.cause.Keeps so.2 out') (srcs.zip outs) outs')
    (h : Track.checkAll objects outs.flatten = .ok ()) :
    Track.checkAll objects' outs'.flatten = .ok () := by
  refine Track.checkAll_eq_ok.mpr fun t' ht' => ?_
  obtain ⟨out', hout', ht'⟩ := List.mem_flatten.mp ht'
  obtain ⟨⟨src, out⟩, hso, hkeep⟩ := exists_related_of_mem hkeeps hout'
  obtain ⟨t, ht, hlike, -⟩ := exists_related_of_mem hkeep ht'
  refine Track.check_like hobjects hlike (Track.checkAll_eq_ok.mp h t ?_)
  exact List.mem_flatten.mpr ⟨out, (List.of_mem_zip hso).2, ht⟩

/-- Instances are expanded at all speeds if they are at some. -/
theorem Expansion.expandObjects_repaced {d d' : Disk} {fps : Number Rat} {folder : Place}
    {k k' k₁ : DefinitionStore Rat} {objects objects' expanded : List (Object Rat)}
    {instances instances' : List (Instance Rat)} (hof : Instance.Of d k folder objects instances)
    (hof' : Instance.Of d' k' folder objects' instances')
    (hsame : Instance.steadyAll instances' = Instance.steadyAll instances)
    (hspeeds : Instance.ForwardAll instances')
    (h : (expandObjects d fps ⟨folder, 0, []⟩ objects).Yields k expanded k₁) :
    ∃ expanded' k₁', (expandObjects d' fps ⟨folder, 0, []⟩ objects').Yields k' expanded' k₁' ∧
      Object.steadyAll expanded' = Object.steadyAll expanded ∧ Object.Forward expanded' := by
  obtain ⟨found, hfound, href, hexpanded⟩ := expandObjects_yields_iff.mp ⟨_, h⟩
  obtain rfl : instances = found := hof.unique hfound
  have hmade : (Instance.expandedAll fps "" 0 instances').map Object.steadyAll =
      .ok (Object.steadyAll expanded) := by
    rw [← Instance.expandedAll_steadyAll, hsame, Instance.expandedAll_steadyAll, hexpanded]
    rfl
  have href' : Instance.ReferableAll "" instances' := by
    rwa [← Instance.referableAll_steadyAll, hsame, Instance.referableAll_steadyAll]
  obtain ⟨expanded', hexpanded', hobjects⟩ := Outcome.map_eq_ok.mp hmade
  obtain ⟨k₁', hexpands⟩ := expandObjects_yields_iff.mpr ⟨instances', hof', href', hexpanded'⟩
  exact ⟨expanded', k₁', hexpands, hobjects, hspeeds.expanded hexpanded'⟩

/-- A tree is flattened at all speeds above zero if it is at some: it has its absolute form, and
each source its tracks. -/
theorem Flattening.flatten_repaced {settings : Settings Rat} {measurer : Measurer Rat}
    {d d' : Disk} {library library' library₁ : EffectLibrary Rat} {fps : Number Rat}
    {speed speed' : Option Rat} {objects objects' flat : List (Object Rat)}
    {entries : List (Entry Rat)} {tracks : List (Track Rat)}
    {emitted outs : List (List (Track Rat))}
    (hlibrary : ∀ name e, library.Gives d name e → library'.Gives d' name e)
    (hobjects : Object.steadyAll objects' = Object.steadyAll objects)
    (hspeed : ∀ v, speed' = some v → 0 < v) (hforward : Object.Forward objects')
    (hemitted : List.Forall₂ (Source.Emits d library fps (TimeScope.root (speed.map .real)) objects)
      (sourcesOfAll objects entries) emitted)
    (houts : List.Forall₂ (List.Forall₂ fun t u => Track.resolveClip settings measurer flat t =
      .ok u) emitted outs)
    (h : (flatten d fps objects entries (speed.map .real)).Yields library (flat, tracks) library₁) :
    ∃ flat' emitted' outs' library₁', (flatten d' fps objects' entries (speed'.map .real)).Yields
        library' (flat', emitted'.flatten) library₁' ∧
      Object.steadyAll flat' = Object.steadyAll flat ∧
      List.Forall₂ (List.Forall₂ fun t u => Track.resolveClip settings measurer flat' t = .ok u)
        emitted' outs' ∧
      List.Forall₂ (fun so out' => so.1.cause.Keeps so.2 out')
        ((sourcesOfAll objects entries).zip outs) outs' := by
  obtain ⟨hflat, hnodup, -⟩ := flatten_yields h
  have hroots : (TimeScope.root (speed'.map .real)).start =
      (TimeScope.root (speed.map .real)).start := rfl
  obtain ⟨flat', hflat', hflats⟩ := absoluteAll_repaced hroots hobjects hflat
  have hnodup' : (Address.ids flat').Nodup := by
    rwa [← Object.ids_steadyAll, hflats, Object.ids_steadyAll]
  obtain ⟨emitted', outs', hemitted', houts', hkeeps⟩ := tracks_repaced hlibrary hobjects hflats
    hroots (TimeScope.root_speed_pos hspeed)
    (fun src' hsrc' o ho => hforward o (Address.mem_walk_of_way (sourcesOfAll_spec hsrc').1 ho))
    (sources_repaced hobjects entries) hemitted houts
  obtain ⟨tracks', library₁', hflattens⟩ := flatten_yields_iff.mpr ⟨hflat', hnodup', by
    intro src' hsrc'
    obtain ⟨out', -, hout'⟩ := exists_related_of_mem hemitted'.flip hsrc'
    exact ⟨out', hout'⟩⟩
  -- The tracks of the sources are unique, so that these are the ones that flattening gives.
  obtain ⟨-, -, found, rfl, hfound⟩ := flatten_yields hflattens
  obtain rfl : found = emitted' := by
    refine forall₂_unique ?_ hfound hemitted'
    exact fun _ _ _ => Source.Emits.unique
  exact ⟨flat', found, outs', library₁', hflattens, hflats, houts', hkeeps⟩

/-- Lengths are found for the clips of a tree at all speeds if they are at some. -/
theorem resolveClipLengths_repaced {settings : Settings Rat} {measurer : Measurer Rat}
    {flat flat' objects : List (Object Rat)} {emitted' outs' : List (List (Track Rat))}
    (hflats : Object.steadyAll flat' = Object.steadyAll flat)
    (hclips : Object.resolveAllClips settings measurer flat = .ok objects)
    (houts' : List.Forall₂ (List.Forall₂ fun t u =>
      Track.resolveClip settings measurer flat' t = .ok u) emitted' outs') :
    ∃ objects', resolveClipLengths settings measurer flat' emitted'.flatten =
        .ok (objects', outs'.flatten) ∧
      Object.steadyAll objects' = Object.steadyAll objects := by
  have hresolved : (Object.resolveAllClips settings measurer flat').map Object.steadyAll =
      .ok (Object.steadyAll objects) := by
    rw [← Object.resolveAllClips_steadyAll, hflats, Object.resolveAllClips_steadyAll, hclips]
    rfl
  obtain ⟨objects', hobjects', hsteady⟩ := Outcome.map_eq_ok.mp hresolved
  refine ⟨objects', Outcome.bind_eq_ok.mpr ⟨objects', hobjects', ?_⟩, hsteady⟩
  exact Outcome.bind_eq_ok.mpr ⟨_, Outcome.mapM_eq_ok.mpr (List.rel_flatten houts'), rfl⟩

/-- A document that compiles does so at all speeds above zero. -/
theorem Studio.Stages.repaced {s s' : Studio Rat} {folder : Place} {doc doc' : Document Rat}
    {c c₁ c' : Catalog Rat} {timeline : Timeline Rat} {instances instances' : List (Instance Rat)}
    {expanded flat : List (Object Rat)} {tracks : List (Track Rat)}
    {emitted outs : List (List (Track Rat))}
    (h : s.Stages folder doc c timeline c₁ expanded flat tracks)
    (hof : Instance.Of s.disk c.definitions folder doc.objects instances)
    (hemitted : List.Forall₂ (Source.Emits s.disk c.effects (.real doc.project.fps)
      (TimeScope.root (doc.speed.map .real)) expanded) (sourcesOfAll expanded doc.animations)
      emitted)
    (houts : List.Forall₂ (List.Forall₂ fun t u =>
      Track.resolveClip s.settings s.measurer flat t = .ok u) emitted outs)
    (htracks : timeline.tracks = outs.flatten)
    (hrepaced : Repaced s s' folder doc doc' c c' instances instances') :
    ∃ timeline' c₁' outs', (s'.compile folder doc').Yields c' timeline' c₁' ∧
      Object.steadyAll timeline'.objects = Object.steadyAll timeline.objects ∧
      timeline'.tracks = outs'.flatten ∧
      List.Forall₂ (fun so out' => so.1.cause.Keeps so.2 out')
        ((sourcesOfAll expanded doc.animations).zip outs) outs' := by
  obtain ⟨hsettings, hmeasurer, heffects, hproject, hanimations, hof', hsame, hspeed, hspeeds⟩ :=
    hrepaced
  have hdeclared : Object.steadyAll doc'.objects = Object.steadyAll doc.objects := by
    rw [← hof'.declared, ← hof.declared, ← Instance.declaredAll_steadyAll, hsame,
      Instance.declaredAll_steadyAll]
  obtain ⟨expanded', definitions, hexpands, hobjects, hforward⟩ :=
    Expansion.expandObjects_repaced hof hof' hsame hspeeds h.expands
  have hchecked : Object.checkTree doc'.objects = .ok () :=
    Object.checkTree_repaced hdeclared (hof'.declared ▸ hspeeds.declared) h.declared
  have hchecked' : Object.checkTree expanded' = .ok () :=
    Object.checkTree_repaced hobjects hforward h.checked
  obtain ⟨flat', emitted', outs', effects, hflattens, hflats, houts', hkeeps⟩ :=
    flatten_repaced heffects hobjects hspeed hforward hemitted houts h.flattens
  obtain ⟨hclips, -⟩ := resolveClipLengths_eq_ok h.clips
  obtain ⟨objects', hlengths, hsteady⟩ := resolveClipLengths_repaced hflats hclips houts'
  have hfits : Track.checkAll objects' outs'.flatten = .ok () :=
    checkAll_repaced hsteady hkeeps (htracks ▸ h.fits)
  rw [← hanimations, ← hproject, ← hsettings, ← hmeasurer] at *
  refine ⟨⟨doc'.project, objects', outs'.flatten, []⟩, ⟨definitions, effects⟩, outs',
    Studio.compile_yields.mpr ⟨expanded', flat', emitted'.flatten,
      ⟨hchecked, hexpands, hchecked', hflattens, hlengths, hfits⟩, rfl, rfl⟩, hsteady, rfl, hkeeps⟩

end Storyboard
