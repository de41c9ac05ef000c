import Storyboard.Proofs.Backwards
import Storyboard.Proofs.Expansion.Following
import Storyboard.Proofs.Flattening.Timing
import Storyboard.Proofs.Performance

namespace Storyboard

open Flattening

section

variable {R : Type} [Scalar R]

/-- A keyframe at a frame that is not below zero, and the same keyframe so many frames later. -/
def Keyframe.Behind (offset : Int) (k k' : Keyframe R) : Prop :=
  ∃ n : Int, 0 ≤ n ∧ k.start = .number (.int n) ∧ k' = k.startingAt (offset + n)

omit [Scalar R] in
theorem Keyframe.eq_of_behind_zero {ks ks' : List (Keyframe R)}
    (h : List.Forall₂ (Behind 0) ks ks') : ks' = ks := by
  have hsame : List.Forall₂ (fun k k' : Keyframe R => k' = k) ks ks' := by
    refine h.imp fun k k' hk => ?_
    obtain ⟨n, -, hstart, rfl⟩ := hk
    rw [Int.zero_add, startingAt, ← hstart]
  exact List.forall₂_eq_eq_eq ▸ hsame.flip

omit [Scalar R] in
theorem Track.placed_congr {frame frame' : Quantity R → Outcome Int} {keyframes : List (Keyframe R)}
    (h : ∀ k ∈ keyframes, frame k.start = frame' k.start) :
    placed frame keyframes = placed frame' keyframes := by
  have hmap : (keyframes.mapM fun k => (frame k.start).map fun f => (f, k)) =
      keyframes.mapM fun k => (frame' k.start).map fun f => (f, k) := by
    induction keyframes with
    | nil => rfl
    | cons k rest ih =>
      obtain ⟨hk, hrest⟩ := List.forall_mem_cons.mp h
      rw [List.mapM_cons, List.mapM_cons, hk, ih hrest]
  rw [placed, placed, hmap]

end

/-- A track is the entry for a property of an effect that is used on a target with given properties:
it has the target of the use, and each keyframe of the effect at its frame, with its value put in. -/
structure EffectUse.Spells (use : EffectUse Rat) (props : Members Rat) (start duration : Int)
    (p : String × List (EffectKeyframe Rat)) (t : Track Rat) : Prop where
  target : t.target = use.target
  property : t.property = p.1
  extras : t.extras = []
  keyframes : List.Forall₂ (fun k k' => ∃ context value,
    Percentage.effectValue context (Token.substituteProperty (some props) k.value) = .ok value ∧
      k' = ⟨.number (.int ⌊start + k.time * duration + 1 / 2⌋), value, k.easing, []⟩) p.2 t.keyframes

theorem EffectUse.spells_of_tracksOf {fps : Number Rat} {use : EffectUse Rat} {effect : Effect Rat}
    {props : Members Rat} {start : Int} {tracks : List (Track Rat)}
    (h : use.tracksOf effect fps (some props) start = .ok tracks) :
    ∃ duration, use.durationFrames effect fps = .ok duration ∧
      List.Forall₂ (use.Spells props start duration) effect.properties tracks := by
  obtain ⟨duration, hduration, h⟩ := Outcome.bind_eq_ok.mp h
  refine ⟨duration, hduration, (Outcome.mapM_eq_ok.mp h).imp fun p t ht => ?_⟩
  obtain ⟨keyframes, hkeyframes, ht⟩ := Outcome.bind_eq_ok.mp ht
  obtain rfl := Outcome.pure_eq_ok.mp ht
  refine ⟨rfl, rfl, rfl, (keyframesFrom_eq_ok hkeyframes).imp fun k k' hk => ?_⟩
  obtain ⟨context, value, frame, hvalue, hframe, rfl⟩ := hk
  rw [keyframeFrame_eq hframe]
  exact ⟨context, value, hvalue, rfl⟩

/-- The entries that the use of an effect stands for, on a target with the properties of an object:
one for each property of the effect, at the start of the use. -/
def EffectUse.StandsFor (d : Disk) (library : EffectLibrary Rat) (fps : Number Rat)
    (use : EffectUse Rat) (target : Object Rat) (tracks : List (Track Rat)) : Prop :=
  ∃ effect start duration, library.Gives d use.effect effect ∧
    Time.frame fps use.start = .ok start ∧ use.durationFrames effect fps = .ok duration ∧
    use.tracksOf effect fps (some target.staticProps) start = .ok tracks ∧
    List.Forall₂ (use.Spells target.staticProps start duration) effect.properties tracks

/-- They are what the use is expanded to among objects in which its target is one with these
properties. -/
theorem EffectUse.StandsFor.expand {d : Disk} {library : EffectLibrary Rat} {fps : Number Rat}
    {use : EffectUse Rat} {target : Object Rat} {tracks : List (Track Rat)}
    (h : use.StandsFor d library fps target tracks) {objects : List (Object Rat)}
    (hfind : (Address.find objects use.target "").map Object.staticProps =
      some target.staticProps) :
    ∃ library', (use.expand d fps objects).Yields library tracks library' := by
  obtain ⟨effect, start, duration, hgives, hstart, -, htracks, -⟩ := h
  obtain ⟨library', hget, -⟩ := EffectLibrary.get_of_gives hgives
  refine ⟨library', Run.yields_lift_bind.mpr ⟨start, hstart, ?_⟩⟩
  rw [hfind]
  exact Run.yields_bind.mpr ⟨effect, library', hget, Run.yields_lift.mpr ⟨htracks, rfl⟩⟩

theorem EffectUse.standsFor_of_tracksOf {d : Disk} {library : EffectLibrary Rat} {fps : Number Rat}
    {use : EffectUse Rat} {target : Object Rat} {tracks : List (Track Rat)} {effect : Effect Rat}
    {start : Int} (hgives : library.Gives d use.effect effect)
    (hstart : Time.frame fps use.start = .ok start)
    (htracks : use.tracksOf effect fps (some target.staticProps) start = .ok tracks) :
    use.StandsFor d library fps target tracks := by
  obtain ⟨duration, hduration, hspells⟩ := spells_of_tracksOf htracks
  exact ⟨effect, start, duration, hgives, hstart, hduration, htracks, hspells⟩

section

variable {fps : Number Rat} {offset start : Int}

/-- A later start makes the frame of a keyframe later by as much. -/
theorem EffectUse.keyframeFrame_add (offset start duration : Int) (part : Rat) :
    ∃ n, keyframeFrame start duration part = .ok n ∧
      keyframeFrame (offset + start) duration part = .ok (offset + n) := by
  refine ⟨_, keyframeFrame_ok start duration part, ?_⟩
  rw [keyframeFrame_ok]
  push_cast
  rw [add_assoc (offset : Rat), add_assoc (offset : Rat), Int.floor_intCast_add]

theorem EffectUse.keyframesFrom_behind {source property : String} {props : Option (Members Rat)}
    {duration : Int} {index : Nat} {ks : List (EffectKeyframe Rat)} {out : List (Keyframe Rat)}
    (hlate : ∀ k ∈ ks, ∀ n, keyframeFrame start duration k.time = .ok n → 0 ≤ n)
    (h : keyframesFrom source property props (offset + start) duration index ks = .ok out) :
    ∃ out', keyframesFrom source property props start duration index ks = .ok out' ∧
      List.Forall₂ (Keyframe.Behind offset) out' out := by
  induction ks generalizing index out with
  | nil =>
    cases h
    exact ⟨[], rfl, .nil⟩
  | cons k rest ih =>
    obtain ⟨hk, hrest⟩ := List.forall_mem_cons.mp hlate
    obtain ⟨first, hfirst, h⟩ := Outcome.bind_eq_ok.mp h
    obtain ⟨others, hothers, h⟩ := Outcome.bind_eq_ok.mp h
    obtain rfl := Outcome.pure_eq_ok.mp h
    obtain ⟨checked, heasing, hfirst⟩ := Outcome.bind_eq_ok.mp hfirst
    obtain ⟨value, hvalue, hfirst⟩ := Outcome.bind_eq_ok.mp hfirst
    obtain ⟨frame, hframe, hfirst⟩ := Outcome.bind_eq_ok.mp hfirst
    obtain rfl := Outcome.pure_eq_ok.mp hfirst
    obtain ⟨n, hn, hlater⟩ := keyframeFrame_add offset start duration k.time
    obtain rfl := Except.ok.inj (hlater.symm.trans hframe)
    obtain ⟨others', hothers', hbehind⟩ := ih hrest hothers
    refine ⟨⟨.number (.int n), value, k.easing, []⟩ :: others', ?_,
      .cons ⟨n, hk n hn, rfl, rfl⟩ hbehind⟩
    refine Outcome.bind_eq_ok.mpr ⟨_, ?_, Outcome.bind_eq_ok.mpr ⟨others', hothers', rfl⟩⟩
    refine Outcome.bind_eq_ok.mpr ⟨checked, heasing, Outcome.bind_eq_ok.mpr ⟨value, hvalue, ?_⟩⟩
    exact Outcome.bind_eq_ok.mpr ⟨n, hn, rfl⟩

/-- The tracks of the use of an effect under another target and at a later start are those of the
use itself, later by as much. -/
theorem EffectUse.tracksOf_behind (use : EffectUse Rat) {target : String} {q : Quantity Rat}
    {effect : Effect Rat} {props : Option (Members Rat)} {out : List (Track Rat)}
    (hlate : ∀ duration, use.durationFrames effect fps = .ok duration → ∀ p ∈ effect.properties,
      ∀ k ∈ p.2, ∀ n, keyframeFrame start duration k.time = .ok n → 0 ≤ n)
    (h : tracksOf { use with target := target, start := q } effect fps props (offset + start) =
      .ok out) :
    ∃ tracks, use.tracksOf effect fps props start = .ok tracks ∧
      List.Forall₂ (fun t t' => t.target = use.target ∧ ∃ ks,
        List.Forall₂ (Keyframe.Behind offset) t.keyframes ks ∧
          t' = { t with target := target, keyframes := ks }) tracks out := by
  obtain ⟨duration, hduration, h⟩ := Outcome.bind_eq_ok.mp h
  have hself : List.Forall₂ (fun p p' => p' = p ∧ p ∈ effect.properties) effect.properties
      effect.properties :=
    List.forall₂_same.mpr fun p hp => ⟨rfl, hp⟩
  obtain ⟨tracks, htracks, hbehind⟩ : ∃ tracks, List.Forall₂ (fun p t => (do
        let keyframes ← keyframesFrom ("effect " ++ quote use.effect) p.1 props start duration 0 p.2
        return (⟨use.target, p.1, keyframes, []⟩ : Track Rat)) = .ok t) effect.properties tracks ∧
      List.Forall₂ (fun t' t => t.target = use.target ∧ ∃ ks,
        List.Forall₂ (Keyframe.Behind offset) t.keyframes ks ∧
          t' = { t with target := target, keyframes := ks }) out tracks := by
    refine forall₂_transfer hself (Outcome.mapM_eq_ok.mp h) fun p p' t hp ht => ?_
    obtain ⟨rfl, hp⟩ := hp
    obtain ⟨ks, hks, ht⟩ := Outcome.bind_eq_ok.mp ht
    obtain rfl := Outcome.pure_eq_ok.mp ht
    obtain ⟨keyframes, hkeyframes, hbehind⟩ :=
      keyframesFrom_behind (hlate duration hduration p' hp) hks
    exact ⟨_, Outcome.bind_eq_ok.mpr ⟨keyframes, hkeyframes, rfl⟩, rfl, ks, hbehind, rfl⟩
  exact ⟨tracks, Outcome.bind_eq_ok.mpr ⟨duration, hduration, Outcome.mapM_eq_ok.mpr htracks⟩,
    hbehind.flip⟩

/-- Expansion moves a property animation keyframe by keyframe. -/
theorem Expansion.shifted_track {lead : String} {t : Track Rat} {ks : List (Keyframe Rat)}
    (h : List.Forall₂ (Keyframe.Behind offset) t.keyframes ks) :
    shifted offset lead fps (.track t) =
      .ok (.track { t with target := lead ++ t.target, keyframes := ks }) := by
  refine Outcome.bind_eq_ok.mpr ⟨ks, Outcome.mapM_eq_ok.mpr (h.imp fun k k' hk => ?_), rfl⟩
  obtain ⟨n, hn, hstart, rfl⟩ := hk
  rw [hstart, shiftedStart, Time.frame_int hn]
  rfl

end

section

variable {d : Disk} {library : EffectLibrary Rat} {fps : Number Rat} {level : List (Object Rat)}
  {path : String} {frames : FrameMap Rat} {use : EffectUse Rat} {out : List (Track Rat)}
  {offset : Int}

/-- A frame that a keyframe starts at is a time value as well. -/
theorem Track.placed_behind {ks ks' : List (Keyframe Rat)} (hoffset : 0 ≤ offset)
    (h : List.Forall₂ (Keyframe.Behind offset) ks ks') :
    placed (entryFrame fps frames) ks' = placed (effectFrame frames) ks' := by
  refine placed_congr fun k' hk' => ?_
  obtain ⟨k, -, n, hn, -, rfl⟩ := exists_related_of_mem h hk'
  have hstart : (k.startingAt (offset + n)).start = .number (.int (offset + n)) := rfl
  rw [hstart, effectFrame_int, entryFrame, Time.frame_int (by omega)]
  rfl

variable (use) in
/-- The use of an effect under some name and at a later start is compiled to the tracks to which the
tracks that it stands for are compiled one by one, under the name and later by as much. -/
theorem Flattening.EmitsEntry.unfolds {name : String} {q : Quantity Rat} {first : Int}
    (h : EmitsEntry d library fps level path frames
      (.effect { use with target := name, start := q }) out)
    (hfirst : Time.frame fps use.start = .ok first)
    (hq : Time.frame fps q = .ok (offset + first)) (hoffset : 0 ≤ offset)
    (hlate : ∀ n, (Entry.effect use).KeyframeAt d library fps n → 0 ≤ n) :
    ∃ target tracks, resolveTarget name level path = .ok target ∧
      use.StandsFor d library fps target tracks ∧
      List.Forall₂ (fun t u => t.target = use.target ∧ ∃ ks,
        List.Forall₂ (Keyframe.Behind offset) t.keyframes ks ∧
          EmitsEntry d library fps level path frames
            (.track { t with target := name, keyframes := ks }) [u]) tracks out := by
  obtain ⟨target, htarget, start, hstart, effect, placed, hgives, hplaced, hall⟩ := h
  obtain rfl := Except.ok.inj (hq.symm.trans hstart)
  obtain ⟨tracks, htracks, hbehind⟩ := use.tracksOf_behind (fun duration hduration
    p hp k hk n hn => hlate n ⟨first, hfirst, effect, duration, hgives, hduration, p, hp, k, hk,
      keyframeFrame_eq hn⟩) hplaced
  refine ⟨target, tracks, htarget, EffectUse.standsFor_of_tracksOf hgives hfirst htracks, ?_⟩
  refine (forall₂_trans hbehind hall).imp fun t u htu => ?_
  obtain ⟨_, ⟨hname, ks, hks, rfl⟩, keyframes, hkeyframes, rfl⟩ := htu
  refine ⟨hname, ks, hks, target, htarget, keyframes, ?_, rfl⟩
  rw [Track.placed_behind hoffset hks]
  exact hkeyframes

/-- An effect of the document or of a group, and the tracks that it stands for. -/
theorem Flattening.EmitsEntry.unfolds_own
    (h : EmitsEntry d library fps level path frames (.effect use) out)
    (hlate : ∀ n, (Entry.effect use).KeyframeAt d library fps n → 0 ≤ n) :
    ∃ target tracks, resolveTarget use.target level path = .ok target ∧
      use.StandsFor d library fps target tracks ∧
      List.Forall₂ (fun t u => t.target = use.target ∧
        EmitsEntry d library fps level path frames (.track t) [u]) tracks out := by
  have hentry := h
  obtain ⟨-, -, first, hfirst, -⟩ := h
  have hq : Time.frame fps use.start = .ok (0 + first) := by rw [hfirst, Int.zero_add]
  obtain ⟨target, tracks, htarget, hstands, hall⟩ :=
    hentry.unfolds use hfirst hq (Int.le_refl 0) hlate
  refine ⟨target, tracks, htarget, hstands, hall.imp fun t u htu => ?_⟩
  obtain ⟨hname, ks, hks, hemits⟩ := htu
  rw [Keyframe.eq_of_behind_zero hks, ← hname] at hemits
  exact ⟨hname, hemits⟩

/-- An effect of a file that has been moved, and the tracks that it stands for, moved as well. -/
theorem Flattening.EmitsEntry.unfolds_moved {put lead : String} {moved : Entry Rat}
    (hmoved : Expansion.shifted offset put fps (.effect use) = .ok moved)
    (h : EmitsEntry d library fps level path frames (withoutLead lead moved) out)
    (hoffset : 0 ≤ offset)
    (hlate : ∀ n, (Entry.effect use).KeyframeAt d library fps n → 0 ≤ n) :
    ∃ target tracks, resolveTarget (withoutLead lead moved).target level path = .ok target ∧
      use.StandsFor d library fps target tracks ∧
      List.Forall₂ (fun t u => ∃ e, Expansion.shifted offset put fps (.track t) = .ok e ∧
        (withoutLead lead e).target = (withoutLead lead moved).target ∧
        EmitsEntry d library fps level path frames (withoutLead lead e) [u]) tracks out := by
  obtain ⟨q, hq, hmoved⟩ := Outcome.bind_eq_ok.mp hmoved
  obtain rfl := Outcome.pure_eq_ok.mp hmoved
  obtain ⟨first, hfirst, hq⟩ := Outcome.bind_eq_ok.mp hq
  obtain rfl := Outcome.pure_eq_ok.mp hq
  have hentry := h
  obtain ⟨-, -, start, hstart, -⟩ := h
  have hlater := hstart
  rw [Time.frame_int_eq_ok hstart] at hlater
  obtain ⟨target, tracks, htarget, hstands, hall⟩ :=
    EmitsEntry.unfolds use hentry hfirst hlater hoffset hlate
  refine ⟨target, tracks, htarget, hstands, hall.imp fun t u htu => ?_⟩
  obtain ⟨hname, ks, hks, hemits⟩ := htu
  refine ⟨_, Expansion.shifted_track hks, ?_, ?_⟩
  · rw [hname]
    rfl
  · rw [hname]
    exact hemits

theorem Flattening.StartsAt.nonneg {way : List (Object Rat)} {start : Int} (hfps : 0 ≤ fps.value)
    (h : StartsAt fps way start) : 0 ≤ start := by
  obtain ⟨starts, hstarts, rfl⟩ := h
  refine List.sum_nonneg fun n hn => ?_
  obtain ⟨o, -, ho⟩ := exists_related_of_mem hstarts hn
  exact Time.frameOrZero_nonneg hfps ho

/-- An effect at a position of a script, and the tracks that it stands for in its place. -/
theorem Script.Site.unfolds {σ : Script Rat} {root own : TimeScope Rat} {p : List Nat}
    {front : List (Instance Rat)} {expanded way : List (Object Rat)} {cause : Cause Rat}
    (h : σ.Site fps root p front expanded way own level) (hstart : 0 ≤ own.start)
    (hcause : Script.cause fps front own.start (.effect use) = .ok cause)
    (hemits : (Source.mk p way cause).Emits d library fps root expanded out)
    (hlate : ∀ n, (Entry.effect use).KeyframeAt d library fps n → 0 ≤ n) :
    ∃ target tracks, cause.Reaches (Level.along way) level target ∧
      use.StandsFor d library fps target tracks ∧
      List.Forall₂ (fun t u => ∃ c, Script.cause fps front own.start (.track t) = .ok c ∧
        c.Reaches (Level.along way) level target ∧
        (Source.mk p way c).Emits d library fps root expanded [u]) tracks out := by
  obtain ⟨own', level', hown, hlevel, hemits⟩ := hemits
  obtain rfl := Except.ok.inj (h.scope.symm.trans hown)
  obtain rfl := Except.ok.inj (h.compiles.symm.trans hlevel)
  rcases Script.cause_cases fps front own.start with hentry | hmoved
  · obtain rfl := Except.ok.inj ((hentry _).symm.trans hcause)
    obtain ⟨target, tracks, htarget, hstands, hall⟩ := EmitsEntry.unfolds_own hemits hlate
    refine ⟨target, tracks, htarget, hstands, hall.imp fun t u htu => ?_⟩
    obtain ⟨hname, hemits⟩ := htu
    refine ⟨.entry (.track t), hentry _, ?_, own, level, hown, hlevel, hemits⟩
    change resolveTarget t.target level _ = _
    rw [hname]
    exact htarget
  · rw [hmoved] at hcause
    obtain ⟨moved, hmove, rfl⟩ := Outcome.map_eq_ok.mp hcause
    obtain ⟨target, tracks, htarget, hstands, hall⟩ :=
      EmitsEntry.unfolds_moved hmove hemits hstart hlate
    refine ⟨target, tracks, htarget, hstands, hall.imp fun t u htu => ?_⟩
    obtain ⟨e, he, hname, hemits⟩ := htu
    refine ⟨.resolved e, ?_, ?_, own, level, hown, hlevel, hemits⟩
    · rw [hmoved, he]
      rfl
    · rw [Cause.Reaches, hname]
      exact htarget

/-- An effect in a script that is compiled is notation for the tracks that it stands for: these are
compiled one by one to the tracks to which the effect is, and in its place lead to the same
timeline. -/
theorem Studio.perform_unfolds {s : Studio Rat} {doc : Document Rat} {σ : Script Rat}
    {library' : EffectLibrary Rat} {timeline : Timeline Rat} {p : List Nat}
    {front : List (Instance Rat)} {pre post : List (Entry Rat)} (hfps : 0 ≤ doc.project.fps)
    (h : (s.perform doc σ).Yields library timeline library')
    (hw : Instance.way σ.instances p = some front)
    (hentries : σ.entriesAt front = pre ++ .effect use :: post)
    (hlate : ∀ n, (Entry.effect use).KeyframeAt s.disk library (.real doc.project.fps) n → 0 ≤ n) :
    ∃ target tracks out,
      σ.Compiles s.disk library (.real doc.project.fps) (TimeScope.root (doc.speed.map .real)) p
        (.effect use) target out ∧
      use.StandsFor s.disk library (.real doc.project.fps) target tracks ∧
      List.Forall₂ (fun t u => σ.Compiles s.disk library (.real doc.project.fps)
        (TimeScope.root (doc.speed.map .real)) p (.track t) target [u]) tracks out ∧
      ∃ library'', (s.perform doc (σ.withEntries (pre ++ tracks.map .track ++ post) p)).Yields
        library timeline library'' := by
  obtain ⟨expanded, way, own, level, cause, out, hsite, hcause, hemits, hreplaced⟩ :=
    s.perform_replaced h hw hentries
  have hrate : 0 ≤ (Number.real doc.project.fps).value := hfps
  have hstart : 0 ≤ own.start := StartsAt.nonneg hrate (along_root hsite.scope).1
  obtain ⟨target, tracks, htarget, hstands, hall⟩ :=
    hsite.unfolds hstart hcause hemits hlate
  obtain ⟨causes, hcauses, hemitted⟩ := forall₂_between hall
  refine ⟨target, tracks, out, ⟨front, expanded, way, own, level, cause, hsite, hcause, htarget,
    hemits⟩, hstands, hall.imp fun t u htu => ?_, ?_⟩
  · obtain ⟨c, hc, hreaches, hu⟩ := htu
    exact ⟨front, expanded, way, own, level, c, hsite, hc, hreaches, hu⟩
  · refine hreplaced _ causes (List.forall₂_map_left_iff.mpr hcauses) (EmittedBy.of_single ?_)
    exact List.forall₂_map_left_iff.mpr (hemitted.imp fun _ _ hc => hc.2)

end

/-- Effects are notation. In a document that is compiled, the use of an effect none of whose
keyframes comes before the first frame is compiled to the tracks to which the property animations
that it stands for are compiled, one by one, wherever it is declared: by the document, by a group, or
by the file of an instance. If they replace it there, the same timeline is compiled, also from any
document that declares them there. -/
theorem compile_unfolds {s : Studio Rat} {folder : Place} {j : Json Rat} {doc : Document Rat}
    {c c' : Catalog Rat} {timeline : Timeline Rat} (hread : readDocument Document.codec j = .ok doc)
    (h : (s.compileJson folder j).Yields c timeline c') :
    ∃ σ, Script.Of s.disk c.definitions folder doc σ ∧
      (∃ library, (s.perform doc σ).Yields c.effects timeline library) ∧
      ∀ p front pre post use, Instance.way σ.instances p = some front →
        σ.entriesAt front = pre ++ .effect use :: post →
        (∀ n, (Entry.effect use).KeyframeAt s.disk c.effects (.real doc.project.fps) n → 0 ≤ n) →
        ∃ target tracks out,
          σ.Compiles s.disk c.effects (.real doc.project.fps) (TimeScope.root (doc.speed.map .real))
            p (.effect use) target out ∧
          use.StandsFor s.disk c.effects (.real doc.project.fps) target tracks ∧
          (∀ objects, (Address.find objects use.target "").map Object.staticProps =
              some target.staticProps →
            ∃ library, (use.expand s.disk (.real doc.project.fps) objects).Yields c.effects tracks
              library) ∧
          List.Forall₂ (fun t u => σ.Compiles s.disk c.effects (.real doc.project.fps)
            (TimeScope.root (doc.speed.map .real)) p (.track t) target [u]) tracks out ∧
          (∃ library, (s.perform doc (σ.withEntries (pre ++ tracks.map .track ++ post) p)).Yields
            c.effects timeline library) ∧
          ∀ doc' c₁, doc'.project = doc.project → doc'.speed = doc.speed → c₁.effects = c.effects →
            (σ.withEntries (pre ++ tracks.map .track ++ post) p).Of s.disk c₁.definitions folder
              doc' →
            ∃ c₁', (s.compile folder doc').Yields c₁ timeline c₁' := by
  obtain ⟨doc', hread', h⟩ := Run.yields_lift_bind.mp h
  obtain rfl : doc = doc' := Except.ok.inj (hread.symm.trans hread')
  obtain ⟨hdeclared, σ, library, hof, href, hperformed⟩ := Studio.compile_iff_perform.mp ⟨c', h⟩
  refine ⟨σ, hof, ⟨library, hperformed⟩, ?_⟩
  intro p front pre post use hw hentries hlate
  obtain ⟨target, tracks, out, heffect, hstands, htracks, library', hperformed'⟩ :=
    s.perform_unfolds (Document.rate_pos hread).le hperformed hw hentries hlate
  refine ⟨target, tracks, out, heffect, hstands, fun _ hfind => hstands.expand hfind, htracks,
    ⟨library', hperformed'⟩, ?_⟩
  intro doc' c₁ hproject hspeed heffects hof'
  exact Studio.compile_of_withEntries hof hdeclared href hperformed' hof' hproject hspeed heffects

/-- A component with a rectangle that an effect is used on. -/
def wavedFiles : DefinitionStore Rat :=
  ⟨[(⟨["c.json"]⟩, [("objects", .arr [.obj [("type", .str "rect"), ("id", .str "x"),
        ("width", .num (.int 1)), ("height", .num (.int 1))]]),
      ("animations", .arr [.obj [("target", .str "x"), ("effect", .str "pulse"),
        ("start", .num (.int 3))]])])]⟩

/-- A document that opens the component at frame 10 and runs at a speed. -/
def waved : Json Rat :=
  .obj [("project", .obj [("width", .num (.int 320)), ("height", .num (.int 240)),
      ("fps", .num (.int 30)), ("frames", .num (.int 60))]),
    ("animationSpeed", .num (.int 2)),
    ("objects", .arr [.obj [("type", .str "component"), ("id", .str "k"),
      ("source", .str "c.json"), ("start", .num (.int 10))]])]

/-- Whether the first of some instances opens a file that uses the effect on its rectangle and
declares nothing else. -/
def usesEffect (instances : List (Instance Rat)) : Bool :=
  match Instance.way instances [0] with
  | some [.opened _ _ _ _ ⟨_, [.effect use], _⟩ _] =>
    use.target == "x" && use.effect == "pulse" && decide (use.start = .number (.int 3)) &&
      use.duration.isNone
  | _ => false

theorem usesEffect_spec {instances : List (Instance Rat)} (h : usesEffect instances = true) :
    ∃ i extras, Instance.way instances [0] = some [i] ∧
      i.entries = [.effect ⟨"x", "pulse", .number (.int 3), none, extras⟩] := by
  unfold usesEffect at h
  split at h
  · rename_i use _ _ hway
    obtain ⟨target, effect, start, duration, extras⟩ := use
    simp only [Bool.and_eq_true, beq_iff_eq, decide_eq_true_eq, Option.isNone_iff_eq_none] at h
    obtain ⟨⟨⟨rfl, rfl⟩, rfl⟩, rfl⟩ := h
    exact ⟨_, extras, hway, rfl⟩
  · cases h

/-- What the use of the effect stands for at 30 frames per second: one entry, with one keyframe at
the end of its second. -/
theorem tracks_of_pulse {extras : Members Rat} {target : Object Rat} {tracks : List (Track Rat)}
    (h : EffectUse.StandsFor Disk.empty (pulsing 1 1) (.real 30)
      ⟨"x", "pulse", .number (.int 3), none, extras⟩ target tracks) :
    tracks = [⟨"x", "opacity", [⟨.number (.int 33), .number (.int 0), none, []⟩], []⟩] := by
  obtain ⟨effect, start, duration, hgives, hstart, hduration, -, hspells⟩ := h
  obtain rfl : effect = pulse 1 1 := hgives.unique (.inl rfl)
  obtain rfl := Time.frame_int_eq_ok hstart
  have hsecond : ((Number.real (1 : Rat)).mul (.real 30) >>= Number.roundFrame) = .ok 30 := by
    decide +kernel
  obtain rfl := Except.ok.inj (hsecond.symm.trans hduration)
  obtain ⟨t, rest, ht, hrest, rfl⟩ := List.forall₂_cons_left_iff.mp hspells
  obtain rfl := List.forall₂_nil_left_iff.mp hrest
  obtain ⟨k, others, ⟨context, value, hvalue, rfl⟩, hothers, hkeyframes⟩ :=
    List.forall₂_cons_left_iff.mp ht.keyframes
  obtain rfl := List.forall₂_nil_left_iff.mp hothers
  cases hvalue
  have hframe : ⌊((3 : Int) : Rat) + 1 * ((30 : Int) : Rat) + 1 / 2⌋ = 33 := by
    decide +kernel
  obtain ⟨name, property, keyframes, more⟩ := t
  obtain ⟨rfl, rfl, rfl, -⟩ := ht
  obtain rfl : keyframes = _ := hkeyframes
  rw [hframe]

theorem waved_unfolds :
    ∃ doc timeline c', ∃ σ : Script Rat, ∃ i use target tracks library,
      readDocument Document.codec waved = .ok doc ∧
      (bareStudio.compileJson ⟨[]⟩ waved).Yields ⟨wavedFiles, pulsing 1 1⟩ timeline c' ∧
      σ.Of Disk.empty wavedFiles ⟨[]⟩ doc ∧ Instance.way σ.instances [0] = some [i] ∧
      i.entries = [.effect use] ∧
      use.StandsFor Disk.empty (pulsing 1 1) (.real doc.project.fps) target tracks ∧
      tracks = [⟨"x", "opacity", [⟨.number (.int 33), .number (.int 0), none, []⟩], []⟩] ∧
      (bareStudio.perform doc (σ.withEntries (tracks.map .track) [0])).Yields (pulsing 1 1) timeline
        library := by
  have htest : ((bareStudio.compileJson ⟨[]⟩ waved).exec
      ⟨wavedFiles, pulsing 1 1⟩).1.toOption.any (fun _ => true) = true := by
    decide +kernel
  have hdocument : (readDocument Document.codec waved).toOption.any (fun doc =>
      decide (doc.project.fps = 30) &&
        (Instance.ofDocument Disk.empty wavedFiles 2 ⟨[]⟩ doc.objects).any usesEffect) = true := by
    decide +kernel
  obtain ⟨timeline, c', hrun, -⟩ := Run.yields_of_test _ htest
  obtain ⟨doc, hread, hdocument⟩ := (Option.any_eq_true _ _).mp hdocument
  obtain ⟨hfps, hdocument⟩ := Bool.and_eq_true_iff.mp hdocument
  obtain ⟨instances, hinstances, htest⟩ := (Option.any_eq_true _ _).mp hdocument
  obtain ⟨i, extras, hway, hentries⟩ := usesEffect_spec htest
  have hread := toOption_eq_some.mp hread
  obtain ⟨σ, hof, -, hunfolds⟩ := compile_unfolds hread hrun
  obtain rfl := (Instance.of_ofDocument hinstances).unique hof.instances
  have hrate : 0 ≤ (Number.real doc.project.fps).value := (Document.rate_pos hread).le
  have hforward : (pulse 1 1).Forward := by
    intro p hp k hk
    obtain rfl := List.mem_singleton.mp hp
    obtain rfl := List.mem_singleton.mp hk
    exact ⟨zero_le_one, by norm_num [pulse]⟩
  have hlate (use : EffectUse Rat) : ∀ n, (Entry.effect use).KeyframeAt Disk.empty (pulsing 1 1)
      (.real doc.project.fps) n → 0 ≤ n :=
    fun n hn => hn.nonneg hrate (forward_pulsing hforward)
  have hdeclared : σ.entriesAt [i] = [] ++ .effect _ :: [] := hentries
  obtain ⟨target, tracks, out, -, hstands, -, -, ⟨library, hperformed⟩, -⟩ :=
    hunfolds [0] [i] [] [] _ hway hdeclared (hlate _)
  rw [List.nil_append, List.append_nil] at hperformed
  have hentry := hstands
  rw [of_decide_eq_true hfps] at hentry
  exact ⟨doc, timeline, c', σ, i, _, target, tracks, library, hread, hrun, hof, hway, hentries,
    hstands, tracks_of_pulse hentry, hperformed⟩

end Storyboard
