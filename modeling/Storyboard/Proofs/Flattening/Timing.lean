import Storyboard.Proofs.Flattening.Qualification
import Storyboard.Proofs.Keyframes
import Storyboard.Rational

namespace Storyboard.Flattening

variable {R : Type} [Scalar R]

/-- The start frames of the objects on a way down add up to a frame. -/
def StartsAt (fps : Number R) (way : List (Object R)) (start : Int) : Prop :=
  ∃ starts, List.Forall₂ (fun o n => Time.frameOrZero fps o.groupInfo.start = .ok n) way starts ∧
    start = starts.sum

/-- The speed of a document and those that the objects on a way down declare multiply to a
speed. -/
def RunsAt (speed : Option (Number R)) (way : List (Object R)) (product : Number R) : Prop :=
  TimeScope.speedAlong (speed.getD (.real (Scalar.const 1 0))) way = .ok product

/-- A moment of a group that starts at a frame and runs at a speed falls on an absolute frame. -/
def FallsOn (start : Int) (speed : Number R) (moment frame : Int) : Prop :=
  ∃ slowed rounded, (Number.int moment).div speed = .ok slowed ∧
    slowed.roundFrame = .ok rounded ∧ frame = start + rounded

/-- A part of the duration of an effect is reached at a moment. -/
def ReachedAt (start duration : Int) (part : R) (moment : Int) : Prop :=
  ∃ distance time, (Number.real part).mul (.int duration) = .ok distance ∧
    (Number.int start).add distance = .ok time ∧ time.roundFrame = .ok moment

/-- The tracks of an animation in a group that starts at a frame and runs at a speed. -/
def Timed (d : Disk) (library : EffectLibrary R) (fps : Number R) (start : Int) (speed : Number R) :
    Entry R → List (Track R) → Prop
  | .track t, out => ∃ t', out = [t'] ∧ t'.property = t.property ∧
    Becomes (fun k k' => ∃ moment frame, Time.frame fps k.start = .ok moment ∧
      FallsOn start speed moment frame ∧ k' = k.startingAt frame) t.keyframes t'.keyframes
  | .effect use, out => ∃ effect first duration props, library.Gives d use.effect effect ∧
    Time.frame fps use.start = .ok first ∧ use.durationFrames effect fps = .ok duration ∧
    List.Forall₂ (fun p t' => t'.property = p.1 ∧
      Becomes (fun k k' => ∃ moment frame context value, ReachedAt first duration k.time moment ∧
        FallsOn start speed moment frame ∧
        Percentage.effectValue context (Token.substituteProperty props k.value) = .ok value ∧
        k' = ⟨.number (.int frame), value, k.easing, []⟩) p.2 t'.keyframes) effect.properties out

/-- The animations declared where a way down ends: by the last object, or by the document. -/
def entriesAt (entries : List (Entry R)) (way : List (Object R)) : List (Entry R) :=
  match way.getLast? with
  | some o => o.groupInfo.animations
  | none => entries

omit [Scalar R] in
theorem map_entriesAt (entries : List (Entry R)) (way : List (Object R)) :
    (entriesAt entries way).map Cause.entry <:+: causesAt entries way := by
  rw [entriesAt, causesAt]
  cases way.getLast? with
  | some o => exact List.infix_append _ _ _
  | none => exact List.infix_refl _

theorem along_root {fps : Number R} {speed : Option (Number R)} {way : List (Object R)}
    {own : TimeScope R} (h : TimeScope.along fps (TimeScope.root speed) way = .ok own) :
    StartsAt fps way own.start ∧ RunsAt speed way own.speed := by
  obtain ⟨starts, hstarts, hsum, hspeed⟩ := TimeScope.along_eq_ok.mp h
  refine ⟨⟨starts, hstarts, ?_⟩, hspeed⟩
  rw [hsum]
  exact Int.zero_add _

theorem toAbsolute_eq_ok {own : TimeScope R} {moment frame : Int}
    (h : own.toAbsolute (.int moment) = .ok frame) :
    FallsOn own.start own.speed moment frame := by
  obtain ⟨slowed, hslowed, h⟩ := Outcome.bind_eq_ok.mp h
  obtain ⟨rounded, hrounded, h⟩ := Outcome.bind_eq_ok.mp h
  exact ⟨slowed, rounded, hslowed, hrounded, (Outcome.pure_eq_ok.mp h).symm⟩

theorem keyframeFrame_eq_ok {start duration frame : Int} {part : R}
    (h : EffectUse.keyframeFrame start duration part = .ok frame) :
    ReachedAt start duration part frame := by
  obtain ⟨distance, hdistance, h⟩ := Outcome.bind_eq_ok.mp h
  obtain ⟨time, htime, h⟩ := Outcome.bind_eq_ok.mp h
  exact ⟨distance, time, hdistance, htime, h⟩

theorem EmitsEntry.timed {d : Disk} {library : EffectLibrary R} {fps : Number R}
    {objects : List (Object R)} {path : String} {own : TimeScope R} {entry : Entry R}
    {out : List (Track R)} (h : EmitsEntry d library fps objects path (.scaled own) entry out) :
    Timed d library fps own.start own.speed entry out := by
  obtain ⟨target, -, h⟩ := h
  cases entry with
  | track t =>
    obtain ⟨keyframes, hplaced, rfl⟩ := h
    refine ⟨_, rfl, rfl, (Track.placed_eq_ok hplaced).imp ?_⟩
    intro k k' h
    obtain ⟨frame, hframe, rfl⟩ := h
    obtain ⟨moment, hmoment, hframe⟩ := Outcome.bind_eq_ok.mp hframe
    exact ⟨moment, frame, hmoment, toAbsolute_eq_ok hframe, rfl⟩
  | effect use =>
    obtain ⟨first, hfirst, effect, tracks, hgives, htracks, hall⟩ := h
    obtain ⟨duration, hduration, hproperties⟩ := EffectUse.tracksOf_eq_ok htracks
    refine ⟨effect, first, duration, some target.staticProps, hgives, hfirst, hduration, ?_⟩
    refine (forall₂_trans hproperties hall).imp ?_
    intro p t' h
    obtain ⟨t, ⟨-, hproperty, hshows⟩, keyframes, hplaced, rfl⟩ := h
    refine ⟨hproperty, (Becomes.of_forall₂ hshows (Track.placed_eq_ok hplaced)).imp ?_⟩
    intro k k' h
    obtain ⟨b, ⟨context, value, moment, hvalue, hmoment, rfl⟩, frame, hframe, rfl⟩ := h
    rw [effectFrame_int] at hframe
    exact ⟨moment, frame, context, value, keyframeFrame_eq_ok hmoment, toAbsolute_eq_ok hframe,
      hvalue, rfl⟩

/-- A compiled group starts where the groups around it and itself start together. -/
theorem absolute_start {fps : Number R} {speed : Option (Number R)}
    {objects compiled way : List (Object R)} {p : List Nat} {o : Object R}
    (h : absoluteAll fps Level.root (TimeScope.root speed) objects = .ok compiled)
    (hw : Object.way objects p = some (way ++ [o]))
    (hdeclared : o.groupInfo.start.isSome ∨ o.groupInfo.duration.isSome) :
    ∃ start way' c, StartsAt fps (way ++ [o]) start ∧ Object.way compiled p = some (way' ++ [c]) ∧
      c.groupInfo.start = some (.number (.int start)) := by
  obtain ⟨way', c, outer, hway', houter, hc⟩ := absoluteAll_at h hw
  cases o with
  | shape b s e => simp [Object.groupInfo, GroupInfo.empty] at hdeclared
  | reference b r e => simp [Object.groupInfo, GroupInfo.empty] at hdeclared
  | group b cs info e =>
    obtain ⟨own, children, duration, hown, -, -, rfl⟩ := absolute_group_eq_ok.mp hc
    have halong : TimeScope.along fps (TimeScope.root speed) (way ++ [.group b cs info e]) =
        .ok own := TimeScope.along_concat_eq_ok.mpr ⟨outer, houter, hown⟩
    refine ⟨own.start, way', _, (along_root halong).1, hway', ?_⟩
    simp only [Object.groupInfo] at hdeclared ⊢
    simp [compiledInfo, hdeclared]

/-- Groups start at the sum of the starts around them, which no speed changes. Moments that are
declared in a group count from there, at the product of the speeds around them. -/
theorem flatten_timing {d : Disk} {fps : Number R} {objects compiled : List (Object R)}
    {entries : List (Entry R)} {speed : Option (Number R)} {tracks : List (Track R)}
    {library library' : EffectLibrary R}
    (h : (flatten d fps objects entries speed).Yields library (compiled, tracks) library') :
    (∀ p way o, Object.way objects p = some (way ++ [o]) →
      o.groupInfo.start.isSome ∨ o.groupInfo.duration.isSome →
      ∃ start way' c, StartsAt fps (way ++ [o]) start ∧
        Object.way compiled p = some (way' ++ [c]) ∧
        c.groupInfo.start = some (.number (.int start))) ∧
    ∀ p way, Object.way objects p = some way → entriesAt entries way ≠ [] →
      ∃ start product outs, StartsAt fps way start ∧ RunsAt speed way product ∧
        outs.flatten <:+: tracks ∧
        List.Forall₂ (Timed d library fps start product) (entriesAt entries way) outs := by
  obtain ⟨hcompiled, -, hemitted⟩ := flatten_yields h
  refine ⟨fun p way o hw hdeclared => absolute_start hcompiled hw hdeclared, ?_⟩
  intro p way hw hne
  -- What is declared in one place stands together among the sources, and so do its tracks.
  have hpart := ((map_entriesAt entries way).map (Source.mk p way)).trans (infix_sourcesOfAll hw)
  obtain ⟨-, hout, outs, rfl, hall⟩ := hemitted.exists_part hpart
  rw [List.map_map, List.forall₂_map_left_iff] at hall
  obtain ⟨own, hown⟩ : ∃ own, TimeScope.along fps (TimeScope.root speed) way = .ok own := by
    obtain ⟨e, rest, he⟩ := List.exists_cons_of_ne_nil hne
    rw [he] at hall
    obtain ⟨out, others, ⟨own, level, hown, -⟩, -⟩ := List.forall₂_cons_left_iff.mp hall
    exact ⟨own, hown⟩
  obtain ⟨hstart, hspeed⟩ := along_root hown
  refine ⟨own.start, own.speed, outs, hstart, hspeed, hout, hall.imp ?_⟩
  intro e out h
  obtain ⟨own', level, hown', -, hemits⟩ := h
  obtain rfl : own = own' := Except.ok.inj (hown.symm.trans hown')
  exact hemits.timed

/-- A rectangle in two groups that start later, the inner one at double speed and moving it. -/
def nestedGroups : List (Object Rat) :=
  [.group (.ofId (some "a")) [.group (.ofId none)
    [.shape (.ofId (some "r")) (.rect ⟨some (.int 4), some (.int 4), none, none, none⟩) []]
    { GroupInfo.empty with
      start := some (.text "0.5s")
      speed := some 2
      animations := [.track ⟨"r", "x", [⟨.number (.int 9), .number (.int 1), none, []⟩], []⟩,
        .effect ⟨"r", "fade", .number (.int 3), none, []⟩] } []]
    { GroupInfo.empty with start := some (.number (.int 10)) } []]

/-- A library with an effect of half a second. -/
def fading : EffectLibrary Rat :=
  ⟨[], [("fade", ⟨none, 1 / 2, [("opacity", [⟨1 / 3, .num (.int 0), none, []⟩])], []⟩)]⟩

theorem flatten_timing_nested :
    ∃ compiled tracks library' outer inner,
      (flatten Disk.empty (.real 30) nestedGroups [] none).Yields fading (compiled, tracks)
        library' ∧
      (∃ start way' c, StartsAt (.real 30) [outer, inner] start ∧
        Object.way compiled [0, 0] = some (way' ++ [c]) ∧
        c.groupInfo.start = some (.number (.int start))) ∧
      ∃ start product outs, StartsAt (.real 30) [outer, inner] start ∧
        RunsAt none [outer, inner] product ∧ outs.flatten <:+: tracks ∧
        List.Forall₂ (Timed Disk.empty fading (.real 30) start product)
          inner.groupInfo.animations outs := by
  have hok : ((flatten Disk.empty (.real 30) nestedGroups [] none).exec fading).1.toOption.any
      (fun _ => true) = true := by
    decide +kernel
  obtain ⟨⟨compiled, tracks⟩, library', hrun, -⟩ := Run.yields_of_test _ hok
  obtain ⟨hgroups, hentries⟩ := flatten_timing hrun
  exact ⟨compiled, tracks, library', _, _, hrun, hgroups [0, 0] [_] _ rfl (.inl rfl),
    hentries [0, 0] _ rfl (List.cons_ne_nil _ _)⟩

end Storyboard.Flattening
