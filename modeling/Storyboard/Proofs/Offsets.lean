import Storyboard.Proofs.Exact
import Storyboard.Proofs.Flattening.Timing
import Storyboard.Proofs.Pace.Compilation
import Storyboard.Proofs.Targets

namespace Storyboard

open Flattening

section

variable {R : Type} [Scalar R]

/-- The tracks of a use of an effect that starts at a frame: one for each property, with the
keyframes where their parts of the duration are reached. -/
def EffectUse.PlaysFrom (d : Disk) (library : EffectLibrary R) (fps : Number R) (use : EffectUse R)
    (start : Int) (out : List (Track R)) : Prop :=
  ∃ effect duration, library.Gives d use.effect effect ∧
    use.durationFrames effect fps = .ok duration ∧
    List.Forall₂ (fun p t => t.property = p.1 ∧
      Becomes (fun k k' => ∃ moment, ReachedAt start duration k.time moment ∧
        k'.start = .number (.int moment) ∧ k'.easing = k.easing) p.2 t.keyframes)
      effect.properties out

/-- The tracks of an animation whose times count from a frame. -/
def Entry.PlaysFrom (d : Disk) (library : EffectLibrary R) (fps : Number R) (start : Int) :
    Entry R → List (Track R) → Prop
  | .track t, out => ∃ t', out = [t'] ∧ t'.property = t.property ∧
    Becomes (fun k k' => ∃ moment, Time.frame fps k.start = .ok moment ∧
      k'.start = .number (.int (start + moment)) ∧ k'.easing = k.easing) t.keyframes t'.keyframes
  | .effect use, out => ∃ first, Time.frame fps use.start = .ok first ∧
    use.PlaysFrom d library fps (start + first) out

/-- The tracks of a transition that starts at a frame. -/
def Transition.PlaysFrom (d : Disk) (library : EffectLibrary R) (fps : Number R)
    (t : Transition R) (start : Int) (out : List (Track R)) : Prop :=
  EffectUse.PlaysFrom d library fps ⟨"", t.effect, .number (.int start), t.duration, []⟩ start out

/-- A transition of a group plays from the frame at which the group starts, or from the one at which
it ends. -/
def Flattening.Source.Transits (d : Disk) (library : EffectLibrary R) (fps : Number R)
    (root : TimeScope R) (src : Source R) (out : List (Track R)) : Prop :=
  ∃ own, TimeScope.along fps root src.way = .ok own ∧
    match src.cause with
    | .enter t => t.PlaysFrom d library fps own.start out
    | .leave t => ∃ o frames, src.way.getLast? = some o ∧
        durationFrames fps o.groupInfo.duration = .ok (some frames) ∧
        t.PlaysFrom d library fps (own.start + frames) out
    | .entry _ | .resolved _ => True

/-- The group that stands for an instance of a file, at a position. Expansion has moved the
animations of the file by the frame at which flattening starts the group. -/
structure Instance.StandsAt (fps : Number R) (root : TimeScope R) (expanded : List (Object R))
    (p : List Nat) (lead : String) (file : Expansion.Definition R) (way : List (Object R))
    (o : Object R) (own : TimeScope R) : Prop where
  position : Object.way expanded p = some (way ++ [o])
  scope : TimeScope.along fps root (way ++ [o]) = .ok own
  start : StartsAt fps (way ++ [o]) own.start
  resolved : file.animations.mapM (Expansion.shifted own.start lead fps) =
    .ok o.groupInfo.resolved

theorem Instance.exists_standsAt {fps : Number R} {speed : Option (Number R)}
    {instances front : List (Instance R)} {expanded flat : List (Object R)} {p : List Nat}
    {i : Instance R} {file : Expansion.Definition R}
    (hexpanded : Instance.expandedAll fps "" 0 instances = .ok expanded)
    (hflat : absoluteAll fps Level.root (TimeScope.root speed) expanded = .ok flat)
    (hw : Instance.way instances p = some (front ++ [i])) (hfile : i.file? = some file) :
    ∃ way o own, Instance.StandsAt fps (TimeScope.root speed) expanded p
      (Prefixes.along (front ++ [i])).put file way o own := by
  obtain ⟨way, starts, o, -, hway, hstarts, ho⟩ :=
    Instance.expandedAll_startsAt (x := ⟨"", ""⟩) hexpanded hw
  obtain ⟨around, c, outer, -, houter, habs⟩ := absoluteAll_at hflat hway
  cases i with
  | shape b s e => cases hfile
  | group b cs info e => cases hfile
  | opened b r e place content cs =>
    cases hfile
    obtain ⟨first, children, resolved, hfirst, -, hresolved, hgroup⟩ :=
      Instance.expanded_opened_eq_ok.mp ho
    rw [hgroup] at habs
    obtain ⟨own, level, duration, hown, -, -, -⟩ := absolute_group_eq_ok.mp habs
    have halong : TimeScope.along fps (TimeScope.root speed) (way ++ [o]) = .ok own := by
      rw [TimeScope.along_concat_eq_ok, hgroup]
      exact ⟨outer, houter, hown⟩
    -- Both recursions have gone through the same starts.
    obtain ⟨n, hn, hsame⟩ := TimeScope.start_along_concat halong hstarts
    rw [hgroup] at hn
    obtain rfl : n = first := Except.ok.inj (hn.symm.trans hfirst)
    refine ⟨way, _, own, hway, halong, (along_root halong).1, ?_⟩
    rw [hsame, hgroup, Prefixes.along_concat]
    exact hresolved

/-- In a timeline the group starts there as well, if it is given a window at all. -/
theorem Instance.StandsAt.compiled {fps : Number R} {root : TimeScope R} {settings : Settings R}
    {measurer : Measurer R} {expanded flat out way : List (Object R)} {p : List Nat}
    {lead : String} {file : Expansion.Definition R} {o : Object R} {own : TimeScope R}
    (h : Instance.StandsAt fps root expanded p lead file way o own)
    (hflat : absoluteAll fps Level.root root expanded = .ok flat)
    (hclips : Object.resolveAllClips settings measurer flat = .ok out)
    (hwindow : o.groupInfo.start.isSome ∨ o.groupInfo.duration.isSome) :
    ∃ way' group, Object.way out p = some (way' ++ [group]) ∧
      group.groupInfo.start = some (.number (.int own.start)) := by
  obtain ⟨around, c, outer, hc, houter, habs⟩ := absoluteAll_at hflat h.position
  obtain ⟨last, hlast, hall⟩ := Object.way_resolveAllClips hclips hc
  obtain ⟨way', group, rfl, -, hgroup⟩ := forall₂_concat_left hall
  refine ⟨way', group, hlast, ?_⟩
  rw [(Object.resolveClips_alike hgroup).1.groupInfo]
  have hscope := h.scope
  cases o with
  | shape b s e => simp [Object.groupInfo, GroupInfo.empty] at hwindow
  | reference b r e => simp [Object.groupInfo, GroupInfo.empty] at hwindow
  | group b cs info e =>
    obtain ⟨inner, children, duration, hinner, -, -, rfl⟩ := absolute_group_eq_ok.mp habs
    obtain ⟨outer', houter', hinner'⟩ := TimeScope.along_concat_eq_ok.mp hscope
    obtain rfl : outer = outer' := Except.ok.inj (houter.symm.trans houter')
    obtain rfl : inner = own := Except.ok.inj (hinner.symm.trans hinner')
    simp only [Object.groupInfo] at hwindow ⊢
    simp [compiledInfo, hwindow]

end

section

variable {settings : Settings Rat} {measurer : Measurer Rat} {flat : List (Object Rat)}
  {d : Disk} {library : EffectLibrary Rat} {fps : Number Rat} {out clipped : List (Track Rat)}

/-- Tracks in which lengths have been found for percentages. -/
abbrev Clips (settings : Settings Rat) (measurer : Measurer Rat) (flat : List (Object Rat)) :
    List (Track Rat) → List (Track Rat) → Prop :=
  List.Forall₂ fun t u => Track.resolveClip settings measurer flat t = .ok u

theorem Flattening.EmitsEffect.playsFrom {use : EffectUse Rat} {target : Object Rat} {start : Int}
    (h : EmitsEffect d library fps use target start .absolute out)
    (hclipped : Clips settings measurer flat out clipped) :
    use.PlaysFrom d library fps start clipped := by
  obtain ⟨effect, tracks, hgives, htracks, hall⟩ := h
  obtain ⟨duration, hduration, hproperties⟩ := EffectUse.tracksOf_eq_ok htracks
  refine ⟨effect, duration, hgives, hduration, ?_⟩
  refine (forall₂_trans hproperties (forall₂_trans hall hclipped)).imp ?_
  intro p u h
  obtain ⟨t, ⟨-, hproperty, hshows⟩, _, ⟨keyframes, hplaced, rfl⟩, hu⟩ := h
  obtain ⟨-, hproperty', hkeyframes⟩ := Track.resolveClip_keyframes hu
  refine ⟨hproperty'.trans hproperty,
    (Becomes.of_forall₂ hshows ((Track.placed_eq_ok hplaced).forall₂ hkeyframes)).imp ?_⟩
  intro k k' h
  obtain ⟨_, ⟨context, value, moment, -, hmoment, rfl⟩, _, ⟨frame, hframe, rfl⟩, value', rfl⟩ := h
  rw [effectFrame_int] at hframe
  obtain rfl : moment = frame := Except.ok.inj hframe
  exact ⟨moment, keyframeFrame_eq_ok hmoment, rfl, rfl⟩

theorem Flattening.EmitsEntry.playsFrom {level : List (Object Rat)} {path lead lead' : String}
    {start : Int} {entry moved : Entry Rat}
    (hmoved : Expansion.shifted start lead fps entry = .ok moved)
    (h : EmitsEntry d library fps level path .absolute (withoutLead lead' moved) out)
    (hclipped : Clips settings measurer flat out clipped) :
    entry.PlaysFrom d library fps start clipped := by
  cases entry with
  | effect use =>
    obtain ⟨_, hshifted, hmoved⟩ := Outcome.bind_eq_ok.mp hmoved
    obtain ⟨first, hfirst, hshifted⟩ := Outcome.bind_eq_ok.mp hshifted
    cases hshifted
    cases hmoved
    obtain ⟨target, -, begin', hbegin, h⟩ := h
    obtain rfl := Time.frame_int_eq_ok hbegin
    exact ⟨first, hfirst, h.playsFrom hclipped⟩
  | track t =>
    obtain ⟨shifted, hshifted, hmoved⟩ := Outcome.bind_eq_ok.mp hmoved
    cases hmoved
    obtain ⟨target, -, keyframes, hplaced, rfl⟩ := h
    obtain ⟨u, rest, hu, hrest, rfl⟩ := List.forall₂_cons_left_iff.mp hclipped
    obtain rfl := List.forall₂_nil_left_iff.mp hrest
    obtain ⟨-, hproperty, hkeyframes⟩ := Track.resolveClip_keyframes hu
    refine ⟨u, rfl, hproperty, (Becomes.of_forall₂ (Outcome.mapM_eq_ok.mp hshifted)
      ((Track.placed_eq_ok hplaced).forall₂ hkeyframes)).imp ?_⟩
    intro k k' h
    obtain ⟨_, hk, _, ⟨frame, hframe, rfl⟩, value, rfl⟩ := h
    obtain ⟨_, hstart, hk⟩ := Outcome.bind_eq_ok.mp hk
    obtain ⟨moment, hmoment, hstart⟩ := Outcome.bind_eq_ok.mp hstart
    cases hstart
    cases hk
    -- What expansion has written is a frame, which flattening reads as itself.
    obtain ⟨read, hread, hframe⟩ := Outcome.bind_eq_ok.mp hframe
    obtain rfl := Time.frame_int_eq_ok hread
    obtain rfl := Except.ok.inj hframe
    exact ⟨moment, hmoment, rfl, rfl⟩

theorem Flattening.Source.Emits.transits {root : TimeScope Rat} {objects : List (Object Rat)}
    {src : Source Rat} (h : src.Emits d library fps root objects out)
    (hclipped : Clips settings measurer flat out clipped) :
    src.Transits d library fps root clipped := by
  obtain ⟨own, level, hown, -, h⟩ := h
  refine ⟨own, hown, ?_⟩
  rcases src with ⟨position, way, e | e | t | t⟩
  · trivial
  · trivial
  · obtain ⟨around, o, outer, c, -, -, -, path, -, h⟩ := h
    exact h.playsFrom hclipped
  · obtain ⟨around, o, outer, c, frames, rfl, -, -, hframes, path, -, h⟩ := h
    exact ⟨o, frames, List.getLast?_concat, hframes, h.playsFrom hclipped⟩

/-- The animations that expansion has put into the group of an instance have tracks that count from
the start of the group. -/
theorem Instance.StandsAt.plays {root own : TimeScope Rat} {expanded way : List (Object Rat)}
    {entries : List (Entry Rat)} {p : List Nat} {lead : String} {file : Expansion.Definition Rat}
    {o : Object Rat} {outs : List (List (Track Rat))}
    (h : Instance.StandsAt fps root expanded p lead file way o own)
    (hall : List.Forall₂ (fun src clipped => ∃ out,
      Source.Emits d library fps root expanded src out ∧ Clips settings measurer flat out clipped)
      (sourcesOfAll expanded entries) outs) :
    ∃ part, (o.groupInfo.resolved.map (⟨p, way ++ [o], .resolved ·⟩)).zip part <:+:
        (sourcesOfAll expanded entries).zip outs ∧
      List.Forall₂ (Entry.PlaysFrom d library fps own.start) file.animations part := by
  have hown : o.groupInfo.resolved.map Cause.resolved <:+: causesAt entries (way ++ [o]) := by
    rw [causesAt_append_singleton]
    exact (List.suffix_append _ _).isInfix
  have hpart := (hown.map (Source.mk p (way ++ [o]))).trans (infix_sourcesOfAll h.position)
  rw [List.map_map] at hpart
  obtain ⟨part, hzip, hplayed⟩ := forall₂_infix_left hall hpart
  refine ⟨part, hzip, ?_⟩
  refine (forall₂_trans (Outcome.mapM_eq_ok.mp h.resolved)
    (List.forall₂_map_left_iff.mp hplayed)).imp ?_
  intro entry clipped hplayed
  obtain ⟨moved, hmoved, out, ⟨own', level, -, -, hemits⟩, hout⟩ := hplayed
  exact EmitsEntry.playsFrom hmoved hemits hout

end

/-- For every instance of a file the group that stands for it starts at the frame by which expansion
has moved the animations of the file, and their tracks count from there, as those of transitions do.
At other speeds the document compiles to the same objects but for the speeds, and to tracks that
keep their frames unless a document or a group declares them. -/
theorem compile_offsets {s : Studio Rat} {folder : Place} {doc : Document Rat} {c c' : Catalog Rat}
    {timeline : Timeline Rat} (h : (s.compile folder doc).Yields c timeline c') :
    ∃ instances expanded outs,
      Instance.Of s.disk c.definitions folder doc.objects instances ∧
      Instance.expandedAll (.real doc.project.fps) "" 0 instances = .ok expanded ∧
      timeline.tracks = outs.flatten ∧
      (∀ p front i file, Instance.way instances p = some (front ++ [i]) → i.file? = some file →
        ∃ way o own part,
          Instance.StandsAt (.real doc.project.fps) (TimeScope.root (doc.speed.map .real)) expanded
            p (Instance.Prefixes.along (front ++ [i])).put file way o own ∧
          (o.groupInfo.start.isSome ∨ o.groupInfo.duration.isSome →
            ∃ way' group, Object.way timeline.objects p = some (way' ++ [group]) ∧
              group.groupInfo.start = some (.number (.int own.start))) ∧
          (o.groupInfo.resolved.map (⟨p, way ++ [o], .resolved ·⟩)).zip part <:+:
            (sourcesOfAll expanded doc.animations).zip outs ∧
          List.Forall₂ (Entry.PlaysFrom s.disk c.effects (.real doc.project.fps) own.start)
            file.animations part) ∧
      List.Forall₂ (Source.Transits s.disk c.effects (.real doc.project.fps)
        (TimeScope.root (doc.speed.map .real))) (sourcesOfAll expanded doc.animations) outs ∧
      ∀ s' doc' c₁ instances', Repaced s s' folder doc doc' c c₁ instances instances' →
        ∃ timeline' c₁' outs', (s'.compile folder doc').Yields c₁ timeline' c₁' ∧
          Object.steadyAll timeline'.objects = Object.steadyAll timeline.objects ∧
          timeline'.tracks = outs'.flatten ∧
          List.Forall₂ (fun so out' => so.1.cause.Keeps so.2 out')
            ((sourcesOfAll expanded doc.animations).zip outs) outs' := by
  obtain ⟨expanded, flat, tracks, hstages, -⟩ := Studio.compile_yields.mp h
  obtain ⟨instances, hof, hexpanded⟩ := Expansion.expandObjects_yields hstages.expands
  obtain ⟨hflat, -, emitted, rfl, hemitted⟩ := flatten_yields hstages.flattens
  obtain ⟨hclips, htracks⟩ := resolveClipLengths_eq_ok hstages.clips
  obtain ⟨outs, houts, hclipped⟩ := forall₂_flatten_left htracks
  have hall := forall₂_trans hemitted hclipped
  refine ⟨instances, expanded, outs, hof, hexpanded, houts, ?_, ?_, ?_⟩
  · intro p front i file hw hfile
    obtain ⟨way, o, own, hstands⟩ := Instance.exists_standsAt hexpanded hflat hw hfile
    obtain ⟨part, hzip, hplays⟩ := hstands.plays hall
    exact ⟨way, o, own, part, hstands, hstands.compiled hflat hclips, hzip, hplays⟩
  · refine hall.imp ?_
    intro src clipped h
    obtain ⟨out, hemits, hout⟩ := h
    exact hemits.transits hout
  · intro s' doc' c₁ instances' hrepaced
    exact hstages.repaced hof hemitted hclipped houts hrepaced

/-- A component with a group that starts at frame 7 and runs at a speed. The component moves the
group at its frame 3. -/
def pacedFiles (speed : Rat) : DefinitionStore Rat :=
  ⟨[(⟨["c.json"]⟩, [("objects", .arr [.obj [("type", .str "group"), ("id", .str "g"),
        ("start", .num (.int 7)), ("animationSpeed", .num (.real speed)), ("children", .arr [])]]),
      ("animations", .arr [.obj [("target", .str "g"), ("property", .str "opacity"),
        ("keyframes", .arr [.obj [("start", .num (.int 3)), ("value", .num (.int 0))]])]])])]⟩

def pacedReference : Reference Rat :=
  ⟨.component [], some "c.json", some (.number (.int 10)), none, none⟩

/-- A document that opens the component at frame 10 and runs at a speed. -/
def pacedDocument (speed : Rat) : Document Rat :=
  ⟨⟨320, 240, 30, 60, []⟩, some speed, [.reference (.ofId (some "k")) pacedReference []], [], []⟩

def pacedInfo (speed : Rat) : GroupInfo Rat :=
  ⟨some (.number (.int 7)), none, some speed, [], none, none, []⟩

def pacedDefinition (speed : Rat) : Expansion.Definition Rat :=
  ⟨[.group (.ofId (some "g")) [] (pacedInfo speed) []],
    [.track ⟨"g", "opacity", [⟨.number (.int 3), .number (.int 0), none, []⟩], []⟩], none⟩

def pacedInstances (speed : Rat) : List (Instance Rat) :=
  [.opened (.ofId (some "k")) pacedReference [] ⟨["c.json"]⟩ (pacedDefinition speed)
    [.group (.ofId (some "g")) [] (pacedInfo speed) []]]

/-- The speed of the group, if a file defines what the component does. -/
def pacedSpeed? : Expansion.Definition Rat → Option Rat
  | ⟨[.group ⟨some "g", none, none, none, none, none, none, none, none, none, none, none⟩ []
      ⟨some (.number (.int 7)), none, some speed, [], none, none, []⟩ []],
      [.track ⟨"g", "opacity", [⟨.number (.int 3), .number (.int 0), none, []⟩], []⟩], none⟩ =>
    some speed
  | _ => none

theorem eq_pacedDefinition {file : Expansion.Definition Rat} {speed : Rat}
    (h : pacedSpeed? file = some speed) : file = pacedDefinition speed := by
  unfold pacedSpeed? at h
  split at h
  · cases h
    rfl
  · cases h

theorem of_pacedInstances (speed : Rat) {payload : Members Rat}
    (hgives : (pacedFiles speed).Gives Disk.empty ⟨["c.json"]⟩ payload)
    (hfile : (Expansion.define (.component []) (Place.mk ["c.json"]).text payload).toOption.bind
      pacedSpeed? = some speed) (root : Rat) :
    Instance.Of Disk.empty (pacedFiles speed) ⟨[]⟩ (pacedDocument root).objects
      (pacedInstances speed) := by
  obtain ⟨file, hdefine, hspeed⟩ := Option.bind_eq_some_iff.mp hfile
  obtain rfl := eq_pacedDefinition hspeed
  have hlocate : (Place.locate ⟨[]⟩ "c.json").toOption = some ⟨["c.json"]⟩ := by
    decide +kernel
  exact ⟨rfl, ⟨⟨"c.json", rfl, toOption_eq_some.mp hlocate⟩, List.not_mem_nil,
    ⟨payload, hgives, toOption_eq_some.mp hdefine⟩, rfl, trivial, trivial⟩, trivial⟩

theorem paced_offsets :
    ∃ timeline c' timeline' c₁' expanded way o own part,
      (bareStudio.compile ⟨[]⟩ (pacedDocument 2)).Yields ⟨pacedFiles 3, ⟨[], []⟩⟩ timeline c' ∧
      (bareStudio.compile ⟨[]⟩ (pacedDocument 5)).Yields ⟨pacedFiles (1 / 2), ⟨[], []⟩⟩ timeline'
        c₁' ∧
      Object.steadyAll timeline'.objects = Object.steadyAll timeline.objects ∧
      Instance.StandsAt (.real 30) (TimeScope.root (some (.real 2))) expanded [0] "k."
        (pacedDefinition 3) way o own ∧
      List.Forall₂ (Entry.PlaysFrom Disk.empty ⟨[], []⟩ (.real 30) own.start)
        (pacedDefinition 3).animations part := by
  have hok : ((bareStudio.compile ⟨[]⟩ (pacedDocument 2)).exec
      ⟨pacedFiles 3, ⟨[], []⟩⟩).1.toOption.any (fun _ => true) = true := by
    decide +kernel
  have hof := of_pacedInstances 3 (.inl rfl) (by decide +kernel) 2
  have hof' := of_pacedInstances (1 / 2) (.inl rfl) (by decide +kernel) 5
  have hrepaced : Repaced bareStudio bareStudio ⟨[]⟩ (pacedDocument 2) (pacedDocument 5)
      ⟨pacedFiles 3, ⟨[], []⟩⟩ ⟨pacedFiles (1 / 2), ⟨[], []⟩⟩ (pacedInstances 3)
      (pacedInstances (1 / 2)) := by
    refine ⟨rfl, rfl, fun _ _ h => h, rfl, rfl, hof', rfl, ?_, ?_⟩
    · intro v hv
      cases hv
      decide +kernel
    · refine ⟨⟨⟨fun v hv => ?_, trivial⟩, trivial⟩, trivial⟩
      cases hv
      decide +kernel
  obtain ⟨timeline, c', hrun, -⟩ := Run.yields_of_test _ hok
  obtain ⟨instances, expanded, outs, hinstances, -, -, hoffsets, -, hpaces⟩ := compile_offsets hrun
  obtain rfl : pacedInstances 3 = instances := hof.unique hinstances
  obtain ⟨way, o, own, part, hstands, -, -, hplays⟩ := hoffsets [0] [] _ _ rfl rfl
  obtain ⟨timeline', c₁', outs', hrun', hobjects, -, -⟩ := hpaces _ _ _ _ hrepaced
  exact ⟨timeline, c', timeline', c₁', expanded, way, o, own, part, hrun, hrun', hobjects, hstands,
    hplays⟩

end Storyboard
