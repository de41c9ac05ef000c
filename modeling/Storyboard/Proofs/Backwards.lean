import Storyboard.Proofs.Starts

namespace Storyboard

open Flattening

/-- A rectangle to be animated. -/
def square : Object Rat :=
  .shape (.ofId (some "r")) (.rect ⟨some (.int 4), some (.int 4), none, none, none⟩) []

/-- A document with one rectangle and one animation. -/
def canvas (fps : Rat) (speed : Option Rat) (entry : Entry Rat) : Document Rat :=
  ⟨⟨100, 100, fps, 100, []⟩, speed, [square], [entry], []⟩

theorem find_square : Address.find [square] "r" "" = some square := by
  have hsegments : Address.segments "r" = ["r"] := by decide
  have hjoin : Address.join "" "r" = "r" := by decide
  rw [Address.find, hsegments, Address.follow, hjoin]
  rfl

theorem checkAll_square {property : String} {start value : Quantity Rat}
    (h : commonProperties.contains property = true) :
    Track.checkAll [square] [⟨"r", property, [⟨start, value, none, []⟩], []⟩] = .ok () := by
  have hcan : square.canAnimate property = true := by
    rw [Object.canAnimate, h]
    rfl
  simp only [Track.checkAll, Track.check, find_square, hcan, if_true]
  rfl

/-- A track of the rectangle. -/
def move (property : String) (start : Int) (value : Quantity Rat) : Track Rat :=
  ⟨"r", property, [⟨.number (.int start), value, none, []⟩], []⟩

theorem canvas_yields {s : Studio Rat} {folder : Place} {c : Catalog Rat} {fps : Rat}
    {speed : Option Rat} {entry : Entry Rat} {property : String} {start : Int}
    {value : Quantity Rat} {effects : EffectLibrary Rat} {paths : List String}
    (h : (emit s.disk (.real fps) [square] "" (.scaled (TimeScope.root (speed.map .real)))
      entry).Yields ⟨c.effects, ["r"]⟩ [move property start value] ⟨effects, paths⟩)
    (hcommon : commonProperties.contains property = true)
    (hclip : clipProperty? property = none) :
    (s.compile folder (canvas fps speed entry)).Yields c
      ⟨⟨100, 100, fps, 100, []⟩, [square], [move property start value], []⟩
      ⟨c.definitions, effects⟩ := by
  have hfits : Track.checkAll [square] [move property start value] = .ok () :=
    checkAll_square hcommon
  generalize hout : [move property start value] = out at *
  have hclips : out.mapM (Track.resolveClip s.settings s.measurer [square]) = .ok out := by
    have : Track.resolveClip s.settings s.measurer [square] (move property start value) =
        .ok (move property start value) := by
      rw [Track.resolveClip, move, hclip]
      rfl
    rw [← hout, List.mapM_cons, this]
    rfl
  refine Studio.compile_yields.mpr
    ⟨[square], [square], out, ⟨rfl, rfl, rfl, ?_, ?_, hfits⟩, rfl, rfl⟩
  · have hflat : (flattenIn s.disk (.real fps) [square] [entry] (speed.map .real)).Yields
        ⟨c.effects, []⟩ ([square], out) ⟨effects, paths⟩ := by
      refine Run.yields_bind.mpr ⟨([square], []), ⟨c.effects, ["r"]⟩, rfl, ?_⟩
      refine Run.yields_bind.mpr ⟨out, ⟨effects, paths⟩, ?_, ?_⟩
      · refine Run.yields_bind.mpr ⟨out, _, h, ?_⟩
        refine Run.yields_bind.mpr ⟨[], _, rfl, ?_⟩
        exact Run.yields_pure.mpr ⟨List.append_nil out, rfl⟩
      · exact Run.yields_pure.mpr ⟨by rw [List.append_nil], rfl⟩
    have hexec := hflat
    rw [Run.Yields] at hexec
    change (flatten s.disk (.real fps) [square] [entry] (speed.map .real)).Yields c.effects
      ([square], out) effects
    rw [flatten, Run.yields_get_bind, hexec]
    exact Run.yields_set_bind.mpr (Run.yields_lift.mpr ⟨rfl, rfl⟩)
  · change (Object.resolveAllClips s.settings s.measurer [square] >>= fun resolved =>
      out.mapM (Track.resolveClip s.settings s.measurer [square]) >>= fun found =>
        pure (resolved, found)) = _
    rw [hclips]
    rfl

theorem TimeScope.toAbsolute_root {v : Rat} (hv : v ≠ 0) (n : Int) :
    (TimeScope.root (some (.real v))).toAbsolute (.int n) = .ok ⌊n / v + 1 / 2⌋ := by
  rw [toAbsolute]
  change ((Number.int n : Number Rat).div (.real v) >>= fun scaled => scaled.roundFrame >>=
    fun rounded => pure (0 + rounded)) = _
  rw [Number.div_real_eq_ok hv]
  change (Number.roundFrame (.real (n / v)) >>= fun rounded => pure (0 + rounded)) = _
  rw [Number.roundFrame_eq, Number.value_real]
  change Except.ok (0 + _) = _
  rw [Int.zero_add]

theorem Track.placed_singleton {frame : Quantity Rat → Outcome Int} {k : Keyframe Rat} {n : Int}
    (h : frame k.start = .ok n) : Track.placed frame [k] = .ok [k.startingAt n] := by
  simp only [placed, List.mapM_cons, List.mapM_nil, h]
  rfl

theorem floor_neg {x : Rat} (h : x ≤ -1) : ⌊x + 1 / 2⌋ < 0 := by
  rw [Int.floor_lt]
  push_cast
  linarith

/-- A keyframe that comes so late that a negative speed puts it before the first frame. -/
def slide (start : Int) : Entry Rat := .track (move "x" start (.number (.int 5)))

/-- With a negative speed a document has keyframes before its first frame. -/
theorem slide_yields (s : Studio Rat) (folder : Place) (c : Catalog Rat) {v : Rat} (hv : v < 0) :
    ∃ start timeline c',
      (s.compile folder (canvas 30 (some v) (slide start))).Yields c timeline c' ∧
        ¬ AllTimely timeline.tracks := by
  have hstart : (0 : Int) ≤ ⌈-v⌉ := Int.ceil_nonneg (by linarith)
  have hlate : -v ≤ (⌈-v⌉ : Int) := Int.le_ceil _
  have hback : ((⌈-v⌉ : Int) : Rat) / v ≤ -1 := by
    rw [div_le_iff_of_neg hv]
    linarith
  have hplaced : Track.placed (fun q => do
      (FrameMap.scaled (TimeScope.root (some (.real v)))).apply (← Time.frame (.real 30) q))
      [(⟨.number (.int ⌈-v⌉), .number (.int 5), none, []⟩ : Keyframe Rat)] =
      .ok [⟨.number (.int ⌊(⌈-v⌉ : Int) / v + 1 / 2⌋), .number (.int 5), none, []⟩] := by
    refine Track.placed_singleton ?_
    rw [Time.frame_int hstart]
    exact TimeScope.toAbsolute_root hv.ne _
  have hemit : (emit s.disk (.real 30) [square] "" (.scaled (TimeScope.root (some (.real v))))
      (slide ⌈-v⌉)).Yields ⟨c.effects, ["r"]⟩
      [move "x" ⌊(⌈-v⌉ : Int) / v + 1 / 2⌋ (.number (.int 5))] ⟨c.effects, ["r"]⟩ := by
    have htarget : resolveTarget (slide ⌈-v⌉).target [square] "" = .ok square := by
      change resolveTarget "r" [square] "" = _
      rw [resolveTarget, find_square]
    refine Run.yields_lift_bind.mpr ⟨square, htarget, ?_⟩
    refine Run.yields_lift_bind.mpr ⟨_, hplaced, ?_⟩
    exact Run.yields_pure.mpr ⟨rfl, rfl⟩
  refine ⟨⌈-v⌉, _, _, canvas_yields hemit (by decide) (by decide), ?_⟩
  intro hall
  obtain ⟨n, hn, he⟩ := hall _ List.mem_cons_self _ List.mem_cons_self
  have := floor_neg hback
  simp only [Quantity.number.injEq, Number.int.injEq] at he
  omega

/-- An effect with one keyframe. -/
def pulse (duration time : Rat) : Effect Rat :=
  ⟨none, duration, [("opacity", [⟨time, .num (.int 0), none, []⟩])], []⟩

/-- A library with nothing but that effect. -/
def pulsing (duration time : Rat) : EffectLibrary Rat := ⟨[], [("pulse", pulse duration time)]⟩

/-- The use of that effect. -/
def pulseOnce (declared : Option (Quantity Rat)) : EffectUse Rat :=
  ⟨"r", "pulse", .number (.int 0), declared, []⟩

theorem get_pulse {d : Disk} (duration time : Rat) :
    (EffectLibrary.get d "pulse").Yields (pulsing duration time) (pulse duration time)
      (pulsing duration time) := by
  rw [EffectLibrary.get, Run.yields_get_bind]
  have hget : Members.get? "pulse" (pulsing duration time).cache = some (pulse duration time) := rfl
  rw [hget]
  exact Run.yields_pure.mpr ⟨rfl, rfl⟩

/-- The duration of the effect may take its keyframe a whole frame back. -/
theorem pulse_reaches_back {duration time : Rat} (h : ¬ (pulse duration time).Forward) :
    ∃ fps declared frames, 0 < fps ∧
      (pulseOnce declared).durationFrames (pulse duration time) (.real fps) = .ok frames ∧
      time * frames ≤ -1 := by
  have hback : time < 0 ∨ 0 < time ∧ duration < 0 := by
    by_contra hcon
    push Not at hcon
    apply h
    intro p hp k hk
    obtain rfl := List.mem_singleton.mp hp
    obtain rfl := List.mem_singleton.mp hk
    refine ⟨hcon.1, ?_⟩
    rcases hcon.1.eq_or_lt with hzero | hpos
    · change 0 ≤ time * duration
      rw [← hzero, zero_mul]
    · exact mul_nonneg hcon.1 (hcon.2 hpos)
  -- A negative time is stretched by the declared duration, a negative duration by the frame rate.
  rcases hback with htime | ⟨htime, hduration⟩
  · have hn : (0 : Int) ≤ ⌈-1 / time⌉ :=
      Int.ceil_nonneg (div_nonneg_of_nonpos (by norm_num) htime.le)
    have hframe : Time.frame (.real (30 : Rat)) (.number (.int ⌈-1 / time⌉)) = .ok ⌈-1 / time⌉ :=
      Time.frame_int hn
    refine ⟨30, some (.number (.int ⌈-1 / time⌉)), ⌈-1 / time⌉, by norm_num, hframe, ?_⟩
    have hle : -1 / time ≤ (⌈-1 / time⌉ : Int) := Int.le_ceil _
    rw [div_le_iff_of_neg htime] at hle
    linarith
  · have hpos : 0 < 1 / time := by positivity
    have hn : (0 : Rat) < (⌈1 / time⌉ : Int) := by exact_mod_cast Int.ceil_pos.mpr hpos
    have hfps : 0 < (⌈1 / time⌉ : Int) / -duration := div_pos hn (by linarith)
    have hmul : duration * ((⌈1 / time⌉ : Int) / -duration) = -(⌈1 / time⌉ : Int) := by
      have hne : duration ≠ 0 := hduration.ne
      field_simp
    refine ⟨(⌈1 / time⌉ : Int) / -duration, none, -⌈1 / time⌉, hfps, ?_, ?_⟩
    · change (Number.real (duration * ((⌈1 / time⌉ : Int) / -duration))).roundFrame = _
      rw [hmul, Number.roundFrame_eq, Number.value_real]
      congr 1
      rw [Int.floor_eq_iff]
      push_cast
      constructor <;> linarith
    · have hle : 1 / time ≤ (⌈1 / time⌉ : Int) := Int.le_ceil _
      rw [div_le_iff₀ htime] at hle
      push_cast
      linarith

theorem pulse_tracksOf {declared : Option (Quantity Rat)} {duration time fps : Rat} {frames : Int}
    (h : (pulseOnce declared).durationFrames (pulse duration time) (.real fps) = .ok frames) :
    (pulseOnce declared).tracksOf (pulse duration time) (.real fps) (some square.staticProps) 0 =
      .ok [move "opacity" ⌊time * frames + 1 / 2⌋ (.number (.int 0))] := by
  have hmoment : EffectUse.keyframeFrame 0 frames time = .ok ⌊time * frames + 1 / 2⌋ := by
    change (Number.real ((0 : Int) + time * frames)).roundFrame = _
    rw [Number.roundFrame_eq, Number.value_real, Int.cast_zero, zero_add]
  have hkeyframe (context : String) :
      EffectUse.keyframe context (some square.staticProps) 0 frames
        ⟨time, .num (.int 0), none, []⟩ =
        .ok ⟨.number (.int ⌊time * frames + 1 / 2⌋), .number (.int 0), none, []⟩ := by
    refine Outcome.bind_eq_ok.mpr ⟨(), rfl, ?_⟩
    refine Outcome.bind_eq_ok.mpr ⟨.number (.int 0), rfl, ?_⟩
    exact Outcome.bind_eq_ok.mpr ⟨_, hmoment, rfl⟩
  refine Outcome.bind_eq_ok.mpr ⟨frames, h, Outcome.mapM_eq_ok.mpr (.cons ?_ .nil)⟩
  refine Outcome.bind_eq_ok.mpr ⟨_, ?_, rfl⟩
  exact Outcome.bind_eq_ok.mpr ⟨_, hkeyframe _, Outcome.bind_eq_ok.mpr ⟨[], rfl, rfl⟩⟩

theorem pulse_emitted {d : Disk} {declared : Option (Quantity Rat)} {duration time fps : Rat}
    {frames : Int}
    (h : (pulseOnce declared).durationFrames (pulse duration time) (.real fps) = .ok frames) :
    (emit d (.real fps) [square] "" (.scaled (TimeScope.root none))
      (.effect (pulseOnce declared))).Yields ⟨pulsing duration time, ["r"]⟩
      [move "opacity" ⌊(⌊time * frames + 1 / 2⌋ : Int) / (1 : Rat) + 1 / 2⌋ (.number (.int 0))]
      ⟨pulsing duration time, ["r"]⟩ := by
  have hroot : TimeScope.root (none : Option (Number Rat)) = TimeScope.root (some (.real 1)) := by
    rw [TimeScope.root, Scalar.const_one]
    rfl
  have htarget : resolveTarget (Entry.effect (pulseOnce declared)).target [square] "" =
      .ok square := by
    change resolveTarget "r" [square] "" = _
    rw [resolveTarget, find_square]
  have hzero : Time.frame (.real fps) (.number (.int 0)) = .ok 0 := Time.frame_int (Int.le_refl 0)
  have heffect : (withLibrary ((pulseOnce declared).tracks d (.real fps)
      (some square.staticProps) 0)).Yields ⟨pulsing duration time, ["r"]⟩
      [move "opacity" ⌊time * frames + 1 / 2⌋ (.number (.int 0))]
      ⟨pulsing duration time, ["r"]⟩ := by
    refine withLibrary_yields.mpr ⟨pulsing duration time, ?_, rfl⟩
    refine Run.yields_bind.mpr ⟨_, _, get_pulse duration time, ?_⟩
    exact Run.yields_lift.mpr ⟨pulse_tracksOf h, rfl⟩
  refine Run.yields_lift_bind.mpr ⟨square, htarget, ?_⟩
  refine Run.yields_lift_bind.mpr ⟨0, hzero, ?_⟩
  refine Run.yields_bind.mpr ⟨_, _, heffect, ?_⟩
  refine Run.yields_lift.mpr ⟨Outcome.mapM_eq_ok.mpr (.cons ?_ .nil), rfl⟩
  refine Outcome.bind_eq_ok.mpr ⟨_, Track.placed_singleton ?_, rfl⟩
  change effectFrame _ _ = _
  rw [effectFrame_int, hroot]
  exact TimeScope.toAbsolute_root one_ne_zero _

/-- With an effect that does not run forward a document has keyframes before its first frame. -/
theorem pulse_yields (s : Studio Rat) (folder : Place) (definitions : DefinitionStore Rat)
    {duration time : Rat} (h : ¬ (pulse duration time).Forward) :
    ∃ fps declared timeline c', 0 < fps ∧
      (s.compile folder (canvas fps none (.effect (pulseOnce declared)))).Yields
        ⟨definitions, pulsing duration time⟩ timeline c' ∧ ¬ AllTimely timeline.tracks := by
  obtain ⟨fps, declared, frames, hfps, hframes, hback⟩ := pulse_reaches_back h
  refine ⟨fps, declared, _, _, hfps,
    canvas_yields (pulse_emitted hframes) (by decide) (by decide), ?_⟩
  intro hall
  obtain ⟨n, hn, he⟩ := hall _ List.mem_cons_self _ List.mem_cons_self
  have hmoment := floor_neg hback
  have hslowed : ((⌊time * frames + 1 / 2⌋ : Int) : Rat) / 1 ≤ -1 := by
    rw [div_one]
    exact_mod_cast Int.le_sub_one_of_lt hmoment
  have hstart := floor_neg hslowed
  simp only [Quantity.number.injEq, Number.int.injEq] at he
  omega

theorem forward_pulsing {d : Disk} {duration time : Rat} (h : (pulse duration time).Forward) :
    (pulsing duration time).Forward d := by
  intro name e hgives
  rcases hgives with hcached | ⟨-, route, hfile, -⟩
  · by_cases hname : name = "pulse"
    · subst hname
      cases hcached
      exact h
    · have hnone : Members.get? name (pulsing duration time).cache = none := by
        have hne : ("pulse" == name) = false := by simpa using Ne.symm hname
        simp only [pulsing, Members.get?, hne]
        rfl
      rw [hnone] at hcached
      cases hcached
  · cases hfile

/-- Documents and libraries that lead to no keyframe before the first frame. -/
def AlwaysTimely (admitted : Disk → Document Rat → EffectLibrary Rat → Prop) : Prop :=
  ∀ (s : Studio Rat) (folder : Place) (doc : Document Rat) (c c' : Catalog Rat)
    (timeline : Timeline Rat), 0 < doc.project.fps → admitted s.disk doc c.effects →
    (s.compile folder doc).Yields c timeline c' → AllTimely timeline.tracks

theorem alwaysTimely_speed (v : Rat) :
    AlwaysTimely (fun d doc effects => doc.speed = some v ∧ effects.Forward d) ↔ 0 ≤ v := by
  constructor
  · intro hall
    by_contra hv
    have hnone : EffectLibrary.Forward bareStudio.disk ⟨[], []⟩ := by
      intro name e hgives
      rcases hgives with hcached | ⟨-, route, hfile, -⟩
      · cases hcached
      · cases hfile
    have hfps : (0 : Rat) < 30 := by norm_num
    obtain ⟨start, timeline, c', hrun, hbad⟩ :=
      slide_yields bareStudio ⟨[]⟩ ⟨.empty, ⟨[], []⟩⟩ (not_le.mp hv)
    exact hbad (hall _ _ _ _ _ _ hfps ⟨rfl, hnone⟩ hrun)
  · intro hv s folder doc c c' timeline hfps hdoc h
    refine compile_timely hfps ?_ hdoc.2 h
    intro w hw
    rw [hdoc.1] at hw
    cases hw
    exact hv

theorem alwaysTimely_effect (duration time : Rat) :
    AlwaysTimely (fun _ doc effects => doc.speed = none ∧ effects = pulsing duration time) ↔
      (pulse duration time).Forward := by
  constructor
  · intro hall
    by_contra hback
    obtain ⟨fps, declared, timeline, c', hfps, hrun, hbad⟩ :=
      pulse_yields bareStudio ⟨[]⟩ .empty hback
    exact hbad (hall _ _ _ _ _ _ hfps ⟨rfl, rfl⟩ hrun)
  · intro hforward s folder doc c c' timeline hfps hdoc h
    have heffects : c.effects.Forward s.disk := by
      rw [hdoc.2]
      exact forward_pulsing hforward
    refine compile_timely hfps ?_ heffects h
    intro v hv
    rw [hdoc.1] at hv
    cases hv

/-- Compiled keyframes start at the whole frames at which the sources of the expanded document have
keyframes, and so none starts before the first frame exactly if no source has a keyframe there. None
has unless the document or an effect runs backwards. A negative speed of the document breaks this,
and so does an effect that does not run forward. -/
theorem compile_timely_iff {s : Studio Rat} {folder : Place} {j : Json Rat} {doc : Document Rat}
    {c c' : Catalog Rat} {timeline : Timeline Rat} (hread : readDocument Document.codec j = .ok doc)
    (h : (s.compileJson folder j).Yields c timeline c') :
    (∃ expanded, (Expansion.expandObjects s.disk (.real doc.project.fps) ⟨folder, 0, []⟩
        doc.objects).Yields c.definitions expanded c'.definitions ∧
      (∀ q, q ∈ Track.starts timeline.tracks ↔ ∃ src ∈ sourcesOfAll expanded doc.animations, ∃ n,
        src.KeyframeAt s.disk c.effects (.real doc.project.fps)
          (TimeScope.root (doc.speed.map .real)) n ∧ q = .number (.int n)) ∧
      (AllTimely timeline.tracks ↔ ∀ src ∈ sourcesOfAll expanded doc.animations, ∀ n,
        src.KeyframeAt s.disk c.effects (.real doc.project.fps)
          (TimeScope.root (doc.speed.map .real)) n → 0 ≤ n)) ∧
    ((∀ v, doc.speed = some v → 0 ≤ v) → c.effects.Forward s.disk → AllTimely timeline.tracks) ∧
    (∀ v, AlwaysTimely (fun d doc effects => doc.speed = some v ∧ effects.Forward d) ↔ 0 ≤ v) ∧
    ∀ duration time,
      AlwaysTimely (fun _ doc effects => doc.speed = none ∧ effects = pulsing duration time) ↔
        (pulse duration time).Forward := by
  obtain ⟨doc', hread', h⟩ := Run.yields_lift_bind.mp h
  obtain rfl : doc = doc' := Except.ok.inj (hread.symm.trans hread')
  refine ⟨?_, ?_, alwaysTimely_speed, alwaysTimely_effect⟩
  · obtain ⟨expanded, flat, tracks, hstages, -, -⟩ := Studio.compile_yields.mp h
    exact ⟨expanded, hstages.expands, compile_starts hstages, allTimely_iff hstages⟩
  · intro hspeed heffects
    have hfps : 0 < doc.project.fps := by
      simpa [Scalar.exact, Exact.lt] using Document.fps_pos hread
    exact compile_timely hfps hspeed heffects h

/-- A document with one rectangle that runs at a speed. -/
def spun (speed : Int) : Json Rat :=
  .obj [("project", .obj [("width", .num (.int 320)), ("height", .num (.int 240)),
      ("fps", .num (.int 30)), ("frames", .num (.int 60))]),
    ("animationSpeed", .num (.int speed)),
    ("objects", .arr [.obj [("type", .str "rect"), ("id", .str "r"), ("width", .num (.int 10)),
      ("height", .num (.int 10))]]),
    ("animations", .arr [.obj [("target", .str "r"), ("property", .str "x"),
      ("keyframes", .arr [.obj [("start", .num (.int 30)), ("value", .num (.int 5))]])]])]

theorem spun_forward_timely :
    ∃ timeline c', (bareStudio.compileJson ⟨[]⟩ (spun 2)).Yields ⟨.empty, pulsing 1 1⟩ timeline c' ∧
      AllTimely timeline.tracks := by
  have htest : ((bareStudio.compileJson ⟨[]⟩ (spun 2)).exec
      ⟨.empty, pulsing 1 1⟩).1.toOption.any (fun _ => true) = true := by
    decide +kernel
  obtain ⟨timeline, c', hrun, -⟩ := Run.yields_of_test _ htest
  obtain ⟨doc, hread, -⟩ := Run.yields_lift_bind.mp hrun
  have hspeed : ∀ v, doc.speed = some v → 0 ≤ v := by
    have hall : (readDocument Document.codec (spun 2)).toOption.all
        (fun d => d.speed.all fun v => decide (0 ≤ v)) = true := by
      decide +kernel
    intro v hv
    rw [hread] at hall
    simpa [Except.toOption, hv] using hall
  have heffects : (pulsing 1 1).Forward bareStudio.disk := by
    refine forward_pulsing ?_
    intro p hp k hk
    obtain rfl := List.mem_singleton.mp hp
    obtain rfl := List.mem_singleton.mp hk
    exact ⟨zero_le_one, by norm_num [pulse]⟩
  exact ⟨timeline, c', hrun, (compile_timely_iff hread hrun).2.1 hspeed heffects⟩

/-- At the speed -1 the keyframe at frame 30 comes thirty frames before the first one. -/
theorem spun_back_starts_early :
    ∃ timeline c', (bareStudio.compileJson ⟨[]⟩ (spun (-1))).Yields ⟨.empty, ⟨[], []⟩⟩ timeline c' ∧
      ¬ AllTimely timeline.tracks ∧
      ∃ t ∈ timeline.tracks, ∃ k ∈ t.keyframes, k.start = .number (.int (-30)) := by
  have htest : ((bareStudio.compileJson ⟨[]⟩ (spun (-1))).exec ⟨.empty, ⟨[], []⟩⟩).1.toOption.any
      (fun timeline => timeline.tracks.any fun t => t.keyframes.any fun k =>
        decide (k.start = .number (.int (-30)))) = true := by
    decide +kernel
  obtain ⟨timeline, c', hrun, hany⟩ := Run.yields_of_test _ htest
  have hearly : ∃ t ∈ timeline.tracks, ∃ k ∈ t.keyframes, k.start = .number (.int (-30)) := by
    simpa using hany
  refine ⟨timeline, c', hrun, ?_, hearly⟩
  obtain ⟨t, ht, k, hk, hstart⟩ := hearly
  intro hall
  obtain ⟨n, hn, he⟩ := hall t ht k hk
  rw [hstart, Quantity.number.injEq, Number.int.injEq] at he
  omega

end Storyboard
