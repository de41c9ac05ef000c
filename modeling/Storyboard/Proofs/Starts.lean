import Storyboard.Proofs.Checks
import Storyboard.Proofs.Compilation
import Storyboard.Proofs.Exact
import Storyboard.Proofs.Flattening.Qualification
import Storyboard.Proofs.Keyframes
import Storyboard.Proofs.Schema

namespace Storyboard

open Flattening

theorem Document.rate_pos {j : Json Rat} {doc : Document Rat}
    (h : readDocument Document.codec j = .ok doc) : 0 < doc.project.fps := by
  simpa [Scalar.exact, Exact.lt] using Document.fps_pos h

/-- The starts of the keyframes of tracks. -/
def Track.starts (tracks : List (Track Rat)) : List (Quantity Rat) :=
  tracks.flatMap fun t => t.keyframes.map Keyframe.start

@[simp] theorem Track.mem_starts {tracks : List (Track Rat)} {q : Quantity Rat} :
    q ∈ starts tracks ↔ ∃ t ∈ tracks, ∃ k ∈ t.keyframes, k.start = q := by
  simp [starts]

/-- The absolute frame of a moment of a group. -/
def TimeScope.frameAt (s : TimeScope Rat) (moment : Int) : Int :=
  s.start + ⌊moment / s.speed.value + 1 / 2⌋

/-- The absolute frame of a frame. -/
def Flattening.FrameMap.frameAt : FrameMap Rat → Int → Int
  | absolute, moment => moment
  | scaled s, moment => s.frameAt moment

theorem Flattening.FrameMap.apply_eq_ok {frames : FrameMap Rat} {moment n : Int}
    (h : frames.apply moment = .ok n) : n = frames.frameAt moment := by
  cases frames with
  | absolute => exact (Except.ok.inj h).symm
  | scaled s =>
    obtain ⟨slowed, hslowed, h⟩ := Outcome.bind_eq_ok.mp h
    obtain ⟨rounded, hrounded, h⟩ := Outcome.bind_eq_ok.mp h
    rw [Outcome.pure_eq_ok] at h
    rw [Number.roundFrame_eq, Number.div_eq_ok hslowed] at hrounded
    rw [← h, frameAt, TimeScope.frameAt, Except.ok.inj hrounded]

section

variable (d : Disk) (library : EffectLibrary Rat) (fps : Number Rat)

/-- A use of an effect that starts at a frame has a keyframe at a moment. -/
def EffectUse.KeyframeAt (use : EffectUse Rat) (start moment : Int) : Prop :=
  ∃ effect duration, library.Gives d use.effect effect ∧
    use.durationFrames effect fps = .ok duration ∧
    ∃ p ∈ effect.properties, ∃ k ∈ p.2, moment = ⌊start + k.time * duration + 1 / 2⌋

/-- An animation has a keyframe at a moment. -/
def Entry.KeyframeAt (moment : Int) : Entry Rat → Prop
  | .effect use => ∃ start, Time.frame fps use.start = .ok start ∧
    use.KeyframeAt d library fps start moment
  | .track t => ∃ k ∈ t.keyframes, Time.frame fps k.start = .ok moment

/-- A transition that starts at a frame has a keyframe at a moment. -/
def Transition.KeyframeAt (t : Transition Rat) (start moment : Int) : Prop :=
  EffectUse.KeyframeAt d library fps ⟨"", t.effect, .number (.int start), t.duration, []⟩ start
    moment

/-- A source has a keyframe at an absolute frame. Moments of animations of the document and of
groups are mapped by the scope of the group. -/
def Flattening.Source.KeyframeAt (root : TimeScope Rat) (src : Source Rat) (n : Int) : Prop :=
  ∃ own, TimeScope.along fps root src.way = .ok own ∧
    match src.cause with
    | .entry e => ∃ moment, e.KeyframeAt d library fps moment ∧ n = own.frameAt moment
    | .resolved e => e.KeyframeAt d library fps n
    | .enter t => t.KeyframeAt d library fps own.start n
    | .leave t => ∃ o frames, src.way.getLast? = some o ∧
        durationFrames fps o.groupInfo.duration = .ok (some frames) ∧
        t.KeyframeAt d library fps (own.start + frames) n

end

section

variable {d : Disk} {library : EffectLibrary Rat} {fps : Number Rat} {frames : FrameMap Rat}
  {out : List (Track Rat)} {q : Quantity Rat}

theorem EffectUse.keyframeFrame_ok (start duration : Int) (part : Rat) :
    keyframeFrame start duration part = .ok ⌊start + part * duration + 1 / 2⌋ := by
  obtain ⟨distance, hdistance⟩ := Number.mul_ok (.real part) (.int duration)
  obtain ⟨time, htime⟩ := Number.add_ok (.int start) distance
  rw [keyframeFrame, hdistance, Outcome.ok_bind, htime, Outcome.ok_bind, Number.roundFrame_eq,
    Number.add_eq_ok htime, Number.mul_eq_ok hdistance]
  rfl

theorem keyframeFrame_eq {start duration : Int} {part : Rat} {moment : Int}
    (h : EffectUse.keyframeFrame start duration part = .ok moment) :
    moment = ⌊start + part * duration + 1 / 2⌋ :=
  Except.ok.inj (h.symm.trans (EffectUse.keyframeFrame_ok start duration part))

/-- The tracks of an effect start at its moments, mapped. -/
theorem Flattening.EmitsEffect.mem_starts {use : EffectUse Rat} {target : Object Rat} {start : Int}
    (h : EmitsEffect d library fps use target start frames out) :
    q ∈ Track.starts out ↔ ∃ moment, use.KeyframeAt d library fps start moment ∧
      q = .number (.int (frames.frameAt moment)) := by
  obtain ⟨effect, tracks, hgives, htracks, hall⟩ := h
  obtain ⟨duration, hduration, hproperties⟩ := EffectUse.tracksOf_eq_ok htracks
  rw [Track.mem_starts]
  constructor
  · intro hq
    obtain ⟨t', ht', k', hk', rfl⟩ := hq
    obtain ⟨t, ht, keyframes, hplaced, rfl⟩ := exists_related_of_mem hall ht'
    obtain ⟨p, hp, -, -, hshows⟩ := exists_related_of_mem hproperties ht
    obtain ⟨k, hk, n, hn, rfl⟩ := (Track.placed_eq_ok hplaced).exists_source hk'
    obtain ⟨part, hpart, context, value, moment, -, hmoment, rfl⟩ :=
      exists_related_of_mem hshows hk
    rw [effectFrame_int] at hn
    obtain rfl := FrameMap.apply_eq_ok hn
    exact ⟨moment, ⟨effect, duration, hgives, hduration, p, hp, part, hpart,
      keyframeFrame_eq hmoment⟩, rfl⟩
  · intro hq
    obtain ⟨moment, ⟨effect', duration', hgives', hduration', p, hp, part, hpart, hat⟩, rfl⟩ := hq
    obtain rfl := hgives.unique hgives'
    obtain rfl := Except.ok.inj (hduration.symm.trans hduration')
    obtain ⟨t, ht, -, -, hshows⟩ := exists_related_of_mem hproperties.flip hp
    obtain ⟨t', ht', keyframes, hplaced, rfl⟩ := exists_related_of_mem hall.flip ht
    obtain ⟨k, hk, context, value, moment', -, hmoment, rfl⟩ :=
      exists_related_of_mem hshows.flip hpart
    obtain rfl : moment' = moment := (keyframeFrame_eq hmoment).trans hat.symm
    obtain ⟨k', hk', n, hn, rfl⟩ := (Track.placed_eq_ok hplaced).exists_compiled hk
    rw [effectFrame_int] at hn
    obtain rfl := FrameMap.apply_eq_ok hn
    exact ⟨_, ht', _, hk', rfl⟩

theorem Flattening.EmitsEntry.mem_starts {objects : List (Object Rat)} {path : String}
    {e : Entry Rat} (h : EmitsEntry d library fps objects path frames e out) :
    q ∈ Track.starts out ↔ ∃ moment, e.KeyframeAt d library fps moment ∧
      q = .number (.int (frames.frameAt moment)) := by
  obtain ⟨target, -, h⟩ := h
  cases e with
  | effect use =>
    obtain ⟨start, hstart, h⟩ := h
    rw [h.mem_starts]
    constructor
    · intro hq
      obtain ⟨moment, hat, rfl⟩ := hq
      exact ⟨moment, ⟨start, hstart, hat⟩, rfl⟩
    · intro hq
      obtain ⟨moment, ⟨start', hstart', hat⟩, rfl⟩ := hq
      obtain rfl := Except.ok.inj (hstart.symm.trans hstart')
      exact ⟨moment, hat, rfl⟩
  | track t =>
    obtain ⟨keyframes, hplaced, rfl⟩ := h
    have hbecomes := Track.placed_eq_ok hplaced
    rw [Track.mem_starts]
    constructor
    · intro hq
      obtain ⟨t', ht', k', hk', rfl⟩ := hq
      obtain rfl := List.mem_singleton.mp ht'
      obtain ⟨k, hk, n, hn, rfl⟩ := hbecomes.exists_source hk'
      obtain ⟨moment, hmoment, hn⟩ := Outcome.bind_eq_ok.mp hn
      obtain rfl := FrameMap.apply_eq_ok hn
      exact ⟨moment, ⟨k, hk, hmoment⟩, rfl⟩
    · intro hq
      obtain ⟨moment, ⟨k, hk, hmoment⟩, rfl⟩ := hq
      obtain ⟨k', hk', n, hn, rfl⟩ := hbecomes.exists_compiled hk
      obtain ⟨moment', hmoment', hn⟩ := Outcome.bind_eq_ok.mp hn
      obtain rfl := Except.ok.inj (hmoment.symm.trans hmoment')
      obtain rfl := FrameMap.apply_eq_ok hn
      exact ⟨_, List.mem_singleton_self _, _, hk', rfl⟩

/-- The tracks of a source start at the frames at which it has keyframes. -/
theorem Flattening.Source.Emits.mem_starts {root : TimeScope Rat} {objects : List (Object Rat)}
    {src : Source Rat} (h : src.Emits d library fps root objects out) :
    q ∈ Track.starts out ↔ ∃ n, src.KeyframeAt d library fps root n ∧ q = .number (.int n) := by
  obtain ⟨own, level, hown, -, h⟩ := h
  -- The way down determines the scope.
  have hscope (P : TimeScope Rat → Prop) :
      (∃ own, TimeScope.along fps root src.way = .ok own ∧ P own) ↔ P own := by
    simp [hown]
  simp only [Source.KeyframeAt, hscope]
  rcases src with ⟨position, way, e | e | t | t⟩
  · rw [h.mem_starts]
    constructor
    · intro hq
      obtain ⟨moment, hat, rfl⟩ := hq
      exact ⟨own.frameAt moment, ⟨moment, hat, rfl⟩, rfl⟩
    · intro hq
      obtain ⟨n, ⟨moment, hat, rfl⟩, rfl⟩ := hq
      exact ⟨moment, hat, rfl⟩
  · have hsame (n : Int) : (withoutLead (Level.along way).lead e).KeyframeAt d library fps n ↔
        e.KeyframeAt d library fps n := by
      cases e <;> exact Iff.rfl
    rw [h.mem_starts]
    simp only [hsame]
    rfl
  · obtain ⟨around, o, outer, c, -, -, -, path, -, h⟩ := h
    rw [h.mem_starts]
    rfl
  · obtain ⟨around, o, outer, c, frames, rfl, -, -, hframes, path, -, h⟩ := h
    rw [h.mem_starts]
    constructor
    · intro hq
      obtain ⟨n, hat, rfl⟩ := hq
      exact ⟨n, ⟨o, frames, List.getLast?_concat, hframes, hat⟩, rfl⟩
    · intro hq
      obtain ⟨n, ⟨o', frames', ho', hframes', hat⟩, rfl⟩ := hq
      obtain rfl : o = o' := by simpa using ho'
      obtain rfl : frames = frames' := by simpa [hframes] using hframes'
      exact ⟨n, hat, rfl⟩

theorem Flattening.EmittedBy.mem_starts {root : TimeScope Rat} {objects : List (Object Rat)}
    {srcs : List (Source Rat)} {tracks : List (Track Rat)}
    (h : EmittedBy d library fps root objects srcs tracks) :
    q ∈ Track.starts tracks ↔
      ∃ src ∈ srcs, ∃ n, src.KeyframeAt d library fps root n ∧ q = .number (.int n) := by
  constructor
  · intro hq
    obtain ⟨t, ht, k, hk, he⟩ := Track.mem_starts.mp hq
    obtain ⟨src, hsrc, out, ht, hemits⟩ := h.exists_source ht
    exact ⟨src, hsrc, hemits.mem_starts.mp (Track.mem_starts.mpr ⟨t, ht, k, hk, he⟩)⟩
  · intro hq
    obtain ⟨src, hsrc, hat⟩ := hq
    obtain ⟨outs, rfl, hall⟩ := h
    obtain ⟨out, hout, hemits⟩ := exists_related_of_mem hall.flip hsrc
    obtain ⟨t, ht, k, hk, he⟩ := Track.mem_starts.mp ((Source.Emits.mem_starts hemits).mpr hat)
    exact Track.mem_starts.mpr ⟨t, List.mem_flatten.mpr ⟨out, hout, ht⟩, k, hk, he⟩

/-- Clips are resolved without any effect on starts. -/
theorem starts_of_resolveClips {settings : Settings Rat} {measurer : Measurer Rat}
    {objects : List (Object Rat)} {tracks found : List (Track Rat)}
    (h : List.Forall₂ (fun t t' => Track.resolveClip settings measurer objects t = .ok t') tracks
      found) : Track.starts found = Track.starts tracks := by
  induction h with
  | nil => rfl
  | cons hresolve _ ih =>
    obtain ⟨-, -, hstarts⟩ := Track.resolveClip_eq_ok hresolve
    simp only [Track.starts, List.flatMap_cons] at ih ⊢
    rw [ih, hstarts]

end

/-- A keyframe at a whole frame that is not before the first one. -/
def Keyframe.Timely (k : Keyframe Rat) : Prop := ∃ n : Int, 0 ≤ n ∧ k.start = .number (.int n)

/-- Tracks none of whose keyframes comes before the first frame. -/
def AllTimely (tracks : List (Track Rat)) : Prop := ∀ t ∈ tracks, ∀ k ∈ t.keyframes, k.Timely

theorem allTimely_iff_starts {tracks : List (Track Rat)} :
    AllTimely tracks ↔ ∀ q ∈ Track.starts tracks, ∃ n : Int, 0 ≤ n ∧ q = .number (.int n) := by
  constructor
  · intro hall q hq
    obtain ⟨t, ht, k, hk, rfl⟩ := Track.mem_starts.mp hq
    exact hall t ht k hk
  · intro hall t ht k hk
    exact hall _ (Track.mem_starts.mpr ⟨t, ht, k, hk, rfl⟩)

/-- Compiled keyframes start at the frames at which the sources of the expanded document have
keyframes. -/
theorem compile_starts {s : Studio Rat} {folder : Place} {doc : Document Rat} {c c' : Catalog Rat}
    {timeline : Timeline Rat} {expanded flat : List (Object Rat)} {tracks : List (Track Rat)}
    (h : s.Stages folder doc c timeline c' expanded flat tracks) (q : Quantity Rat) :
    q ∈ Track.starts timeline.tracks ↔ ∃ src ∈ sourcesOfAll expanded doc.animations, ∃ n,
      src.KeyframeAt s.disk c.effects (.real doc.project.fps) (TimeScope.root (doc.speed.map .real))
        n ∧ q = .number (.int n) := by
  obtain ⟨-, -, hemitted⟩ := flatten_yields h.flattens
  obtain ⟨-, hclips⟩ := resolveClipLengths_eq_ok h.clips
  rw [starts_of_resolveClips hclips]
  exact hemitted.mem_starts

theorem allTimely_iff {s : Studio Rat} {folder : Place} {doc : Document Rat} {c c' : Catalog Rat}
    {timeline : Timeline Rat} {expanded flat : List (Object Rat)} {tracks : List (Track Rat)}
    (h : s.Stages folder doc c timeline c' expanded flat tracks) :
    AllTimely timeline.tracks ↔ ∀ src ∈ sourcesOfAll expanded doc.animations, ∀ n,
      src.KeyframeAt s.disk c.effects (.real doc.project.fps) (TimeScope.root (doc.speed.map .real))
        n → 0 ≤ n := by
  rw [allTimely_iff_starts]
  constructor
  · intro hall src hsrc n hat
    obtain ⟨m, hm, he⟩ := hall _ ((compile_starts h _).mpr ⟨src, hsrc, n, hat, rfl⟩)
    cases he
    exact hm
  · intro hall q hq
    obtain ⟨src, hsrc, n, hat, rfl⟩ := (compile_starts h q).mp hq
    exact ⟨n, hall src hsrc n hat, rfl⟩

/-- An effect none of whose keyframes comes before its start. -/
def Effect.Forward (e : Effect Rat) : Prop :=
  ∀ p ∈ e.properties, ∀ k ∈ p.2, 0 ≤ k.time ∧ 0 ≤ k.time * e.duration

/-- A library that gives only effects that run forward. -/
def EffectLibrary.Forward (d : Disk) (library : EffectLibrary Rat) : Prop :=
  ∀ name e, library.Gives d name e → e.Forward

/-- A scope that starts at the first frame or later and does not run backwards. -/
structure TimeScope.Forward (s : TimeScope Rat) : Prop where
  start : 0 ≤ s.start
  speed : 0 ≤ s.speed.value

theorem floor_half_nonneg {x : Rat} (h : 0 ≤ x) : 0 ≤ ⌊x + 1 / 2⌋ :=
  Int.floor_nonneg.mpr (by linarith)

theorem TimeScope.Forward.frameAt_nonneg {s : TimeScope Rat} {moment : Int} (h : s.Forward)
    (hmoment : 0 ≤ moment) : 0 ≤ s.frameAt moment := by
  have hslowed : 0 ≤ (moment : Rat) / s.speed.value :=
    div_nonneg (by exact_mod_cast hmoment) h.speed
  exact Int.add_nonneg h.start (floor_half_nonneg hslowed)

section

variable {d : Disk} {library : EffectLibrary Rat} {fps : Number Rat}

theorem TimeScope.Forward.along {s own : TimeScope Rat} {way : List (Object Rat)}
    (hfps : 0 ≤ fps.value) (hs : s.Forward)
    (hspeeds : ∀ o ∈ way, ∀ v, o.groupInfo.speed = some v → 0 ≤ v)
    (h : TimeScope.along fps s way = .ok own) : own.Forward := by
  induction way generalizing s with
  | nil =>
    cases h
    exact hs
  | cons o way ih =>
    obtain ⟨t, ht, h⟩ := TimeScope.along_cons_eq_ok.mp h
    obtain ⟨n, hn, hstart, hspeed⟩ := TimeScope.enter_eq_ok.mp ht
    refine ih ⟨?_, ?_⟩ (fun x hx => hspeeds x (List.mem_cons_of_mem _ hx)) h
    · rw [hstart]
      exact Int.add_nonneg hs.start (Time.frameOrZero_nonneg hfps hn)
    · rw [Number.mul_eq_ok hspeed]
      refine mul_nonneg hs.speed ?_
      have hone : (0 : Rat) ≤ Scalar.const 1 0 := Scalar.const_one ▸ zero_le_one
      cases hv : o.groupInfo.speed with
      | none => exact hone
      | some v => exact hspeeds o List.mem_cons_self v hv

theorem part_nonneg {use : EffectUse Rat} {effect : Effect Rat} {duration : Int} {part : Rat}
    (hfps : 0 ≤ fps.value) (hpart : 0 ≤ part) (hforward : 0 ≤ part * effect.duration)
    (h : use.durationFrames effect fps = .ok duration) : 0 ≤ part * duration := by
  rw [EffectUse.durationFrames] at h
  split at h
  · exact mul_nonneg hpart (by exact_mod_cast Time.frame_nonneg hfps h)
  · obtain ⟨frames, hframes, h⟩ := Outcome.bind_eq_ok.mp h
    rcases hpart.eq_or_lt with hzero | hpos
    · rw [← hzero, zero_mul]
    · have hduration : 0 ≤ effect.duration := nonneg_of_mul_nonneg_right hforward hpos
      refine mul_nonneg hpart ?_
      have : 0 ≤ frames.value := by
        rw [Number.mul_eq_ok hframes]
        exact mul_nonneg hduration hfps
      exact_mod_cast Number.roundFrame_nonneg h this

theorem EffectUse.KeyframeAt.nonneg {use : EffectUse Rat} {start moment : Int}
    (hfps : 0 ≤ fps.value) (hlibrary : library.Forward d) (hstart : 0 ≤ start)
    (h : use.KeyframeAt d library fps start moment) : 0 ≤ moment := by
  obtain ⟨effect, duration, hgives, hduration, p, hp, k, hk, rfl⟩ := h
  obtain ⟨htime, hdistance⟩ := hlibrary _ _ hgives p hp k hk
  have hpart := part_nonneg hfps htime hdistance hduration
  exact floor_half_nonneg (add_nonneg (by exact_mod_cast hstart) hpart)

theorem Entry.KeyframeAt.nonneg {e : Entry Rat} {moment : Int} (hfps : 0 ≤ fps.value)
    (hlibrary : library.Forward d) (h : e.KeyframeAt d library fps moment) : 0 ≤ moment := by
  cases e with
  | effect use =>
    obtain ⟨start, hstart, h⟩ := h
    exact h.nonneg hfps hlibrary (Time.frame_nonneg hfps hstart)
  | track t =>
    obtain ⟨k, -, hmoment⟩ := h
    exact Time.frame_nonneg hfps hmoment

theorem Flattening.Source.KeyframeAt.nonneg {root : TimeScope Rat} {src : Source Rat} {n : Int}
    (hfps : 0 ≤ fps.value) (hlibrary : library.Forward d) (hroot : root.Forward)
    (hspeeds : ∀ o ∈ src.way, ∀ v, o.groupInfo.speed = some v → 0 ≤ v)
    (h : src.KeyframeAt d library fps root n) : 0 ≤ n := by
  obtain ⟨own, hown, h⟩ := h
  have hforward : own.Forward := hroot.along hfps hspeeds hown
  rcases src with ⟨position, way, e | e | t | t⟩
  · obtain ⟨moment, hat, rfl⟩ := h
    exact hforward.frameAt_nonneg (hat.nonneg hfps hlibrary)
  · exact Entry.KeyframeAt.nonneg hfps hlibrary h
  · exact EffectUse.KeyframeAt.nonneg hfps hlibrary hforward.start h
  · obtain ⟨o, frames, -, hframes, h⟩ := h
    refine EffectUse.KeyframeAt.nonneg hfps hlibrary (Int.add_nonneg hforward.start ?_) h
    cases hd : o.groupInfo.duration with
    | none =>
      rw [hd] at hframes
      cases hframes
    | some q =>
      rw [hd] at hframes
      obtain ⟨m, hm, he⟩ := Outcome.map_eq_ok.mp hframes
      cases he
      exact Time.frame_nonneg hfps hm

end

/-- A compiled keyframe starts before the first frame only if the document runs backwards or an
effect does. -/
theorem compile_timely {s : Studio Rat} {folder : Place} {doc : Document Rat} {c c' : Catalog Rat}
    {timeline : Timeline Rat} (hfps : 0 < doc.project.fps)
    (hspeed : ∀ v, doc.speed = some v → 0 ≤ v) (heffects : c.effects.Forward s.disk)
    (h : (s.compile folder doc).Yields c timeline c') : AllTimely timeline.tracks := by
  obtain ⟨expanded, flat, tracks, hstages, -, -⟩ := Studio.compile_yields.mp h
  have hroot : (TimeScope.root (doc.speed.map .real)).Forward := by
    refine ⟨Int.le_refl 0, ?_⟩
    cases hv : doc.speed with
    | none =>
      have hone : (0 : Rat) ≤ Scalar.const 1 0 := Scalar.const_one ▸ zero_le_one
      exact hone
    | some v => exact hspeed v hv
  refine (allTimely_iff hstages).mpr ?_
  intro src hsrc n hat
  have hspeeds : ∀ o ∈ src.way, ∀ v, o.groupInfo.speed = some v → 0 ≤ v := by
    intro o ho v hv
    have hwalk := Address.mem_walk_of_way (sourcesOfAll_spec hsrc).1 ho
    have hpos := (Object.valid_of_checkTree hstages.checked hwalk).speed _ hv
    simp only [Scalar.exact, Exact.le, Exact.lt, Exact.eq, Bool.or_eq_false_iff,
      decide_eq_false_iff_not] at hpos
    exact not_lt.mp hpos.1
  have hrate : 0 ≤ (Number.real doc.project.fps).value := hfps.le
  exact hat.nonneg hrate heffects hroot hspeeds

end Storyboard
