import Storyboard.Proofs.Flattening.Level
import Storyboard.Proofs.Stores

namespace Storyboard.Flattening

variable {R : Type} [Scalar R]

/-- The frame at which a declared start is compiled. -/
def entryFrame (fps : Number R) (frames : FrameMap R) (q : Quantity R) : Outcome Int := do
  frames.apply (← Time.frame fps q)

/-- The frame at which the start of a keyframe of an effect is compiled. -/
def effectFrame (frames : FrameMap R) (q : Quantity R) : Outcome Int := do
  frames.apply (← frameOf q)

/-- The frame of a keyframe of an effect is a whole number, and is mapped as it is. -/
theorem effectFrame_int (frames : FrameMap R) (n : Int) :
    effectFrame frames (.number (.int n)) = frames.apply n := by
  have hfloor : (Number.int n : Number R).floor = .ok n := by
    simp [Number.floor, Number.whole, Number.exact]
  rw [effectFrame, frameOf, hfloor]
  rfl

/-- The tracks of the use of an effect on a target. -/
def EmitsEffect (d : Disk) (library : EffectLibrary R) (fps : Number R) (use : EffectUse R)
    (target : Object R) (start : Int) (frames : FrameMap R) (out : List (Track R)) : Prop :=
  ∃ effect tracks, library.Gives d use.effect effect ∧
    use.tracksOf effect fps (some target.staticProps) start = .ok tracks ∧
    List.Forall₂ (fun t t' => ∃ keyframes, Track.placed (effectFrame frames) t.keyframes =
      .ok keyframes ∧ t' = { t with keyframes := keyframes }) tracks out

/-- The tracks of an animation among objects on a level. -/
def EmitsEntry (d : Disk) (library : EffectLibrary R) (fps : Number R) (objects : List (Object R))
    (path : String) (frames : FrameMap R) (entry : Entry R) (out : List (Track R)) : Prop :=
  ∃ target, resolveTarget entry.target objects path = .ok target ∧
    match entry with
    | .effect e => ∃ start, Time.frame fps e.start = .ok start ∧
      EmitsEffect d library fps { e with target := targetId target } target start frames out
    | .track t => ∃ keyframes, Track.placed (entryFrame fps frames) t.keyframes = .ok keyframes ∧
      out = [{ t with target := targetId target, keyframes := keyframes }]

theorem EmitsEffect.mono {d : Disk} {k l : EffectLibrary R} {fps : Number R} {use : EffectUse R}
    {target : Object R} {start : Int} {frames : FrameMap R} {out : List (Track R)}
    (h : EmitsEffect d k fps use target start frames out) (hk : k.Within d l) :
    EmitsEffect d l fps use target start frames out := by
  obtain ⟨effect, tracks, hg, ht, hall⟩ := h
  exact ⟨effect, tracks, hk _ _ hg, ht, hall⟩

theorem EmitsEntry.mono {d : Disk} {k l : EffectLibrary R} {fps : Number R}
    {objects : List (Object R)} {path : String} {frames : FrameMap R} {entry : Entry R}
    {out : List (Track R)} (h : EmitsEntry d k fps objects path frames entry out)
    (hk : k.Within d l) : EmitsEntry d l fps objects path frames entry out := by
  obtain ⟨target, ht, h⟩ := h
  cases entry with
  | effect e =>
    obtain ⟨start, hs, h⟩ := h
    exact ⟨target, ht, start, hs, h.mono hk⟩
  | track t => exact ⟨target, ht, h⟩

/-- The paths in use are the same, and the library gives nothing new. -/
structure State.Keeps (d : Disk) (s s' : State R) : Prop where
  library : s'.library.Within d s.library
  paths : s'.paths = s.paths

theorem State.Keeps.refl (d : Disk) (s : State R) : s.Keeps d s := ⟨.refl d _, rfl⟩

theorem State.Keeps.trans {d : Disk} {s t u : State R} (h : s.Keeps d t) (h' : t.Keeps d u) :
    s.Keeps d u := ⟨h'.library.trans h.library, h'.paths.trans h.paths⟩

omit [Scalar R] in
theorem withLibrary_yields {α : Type} {r : Run (EffectLibrary R) α} {s s' : State R} {a : α} :
    (withLibrary r).Yields s a s' ↔
      ∃ library, r.Yields s.library a library ∧ s' = { s with library := library } := by
  rw [withLibrary, Run.yields_get_bind, Run.yields_set_bind, Run.yields_lift]
  constructor
  · intro h
    obtain ⟨ha, rfl⟩ := h
    exact ⟨_, Prod.ext ha rfl, rfl⟩
  · intro hfound
    obtain ⟨library, h, rfl⟩ := hfound
    rw [h]
    exact ⟨rfl, rfl⟩

theorem effectTracks_yields {d : Disk} {fps : Number R} {use : EffectUse R} {target : Object R}
    {start : Int} {frames : FrameMap R} {s s' : State R} {out : List (Track R)}
    (h : (effectTracks d fps use target start frames).Yields s out s') :
    EmitsEffect d s.library fps use target start frames out ∧ s.Keeps d s' := by
  obtain ⟨tracks, s₁, htracks, h⟩ := Run.yields_bind.mp h
  obtain ⟨library, hr, rfl⟩ := withLibrary_yields.mp htracks
  obtain ⟨effect, l₁, hget, hlift⟩ := Run.yields_bind.mp hr
  obtain ⟨hof, rfl⟩ := Run.yields_lift.mp hlift
  obtain ⟨hgives, hwithin⟩ := EffectLibrary.get_yields hget
  obtain ⟨hmap, rfl⟩ := Run.yields_lift.mp h
  refine ⟨⟨effect, tracks, hgives, hof, ?_⟩, hwithin, rfl⟩
  refine (Outcome.mapM_eq_ok.mp hmap).imp fun t t' ht => ?_
  obtain ⟨keyframes, hplaced, ht⟩ := Outcome.bind_eq_ok.mp ht
  exact ⟨keyframes, hplaced, (Outcome.pure_eq_ok.mp ht).symm⟩

theorem emit_yields {d : Disk} {fps : Number R} {objects : List (Object R)} {path : String}
    {frames : FrameMap R} {entry : Entry R} {s s' : State R} {out : List (Track R)}
    (h : (emit d fps objects path frames entry).Yields s out s') :
    EmitsEntry d s.library fps objects path frames entry out ∧ s.Keeps d s' := by
  obtain ⟨target, ht, h⟩ := Run.yields_lift_bind.mp h
  cases entry with
  | effect e =>
    obtain ⟨start, hs, h⟩ := Run.yields_lift_bind.mp h
    obtain ⟨hout, hkeep⟩ := effectTracks_yields h
    exact ⟨⟨target, ht, start, hs, hout⟩, hkeep⟩
  | track t =>
    obtain ⟨keyframes, hk, h⟩ := Run.yields_lift_bind.mp h
    obtain ⟨rfl, rfl⟩ := Run.yields_pure.mp h
    exact ⟨⟨target, ht, keyframes, hk, rfl⟩, .refl d s⟩

theorem emitAll_yields {d : Disk} {fps : Number R} {objects : List (Object R)} {path : String}
    {frames : FrameMap R} {entries : List (Entry R)} {s s' : State R} {tracks : List (Track R)}
    (h : (emitAll d fps objects path frames entries).Yields s tracks s') :
    (∃ outs, tracks = outs.flatten ∧
      List.Forall₂ (EmitsEntry d s.library fps objects path frames) entries outs) ∧
      s.Keeps d s' := by
  induction entries generalizing s tracks with
  | nil =>
    obtain ⟨rfl, rfl⟩ := Run.yields_pure.mp h
    exact ⟨⟨[], rfl, .nil⟩, .refl d s⟩
  | cons e rest ih =>
    obtain ⟨first, s₁, hfirst, h⟩ := Run.yields_bind.mp h
    obtain ⟨others, s₂, hothers, h⟩ := Run.yields_bind.mp h
    obtain ⟨rfl, rfl⟩ := Run.yields_pure.mp h
    obtain ⟨hout, hkeep⟩ := emit_yields hfirst
    obtain ⟨⟨outs, rfl, hall⟩, hkeep'⟩ := ih hothers
    refine ⟨⟨first :: outs, rfl, .cons hout ?_⟩, hkeep.trans hkeep'⟩
    exact hall.imp fun _ _ hx => hx.mono hkeep.library

omit [Scalar R] in
theorem claimPath_yields {l : Level} {id path : Option String} {s s' : State R}
    (h : (claimPath l.path l.lead id).Yields s path s') :
    path = l.fullId id ∧ s'.library = s.library ∧ s'.paths = path.toList ++ s.paths ∧
      ∀ p, path = some p → p ∉ s.paths := by
  cases id with
  | none =>
    obtain ⟨rfl, rfl⟩ := Run.yields_pure.mp h
    simp
  | some raw =>
    rw [claimPath, Run.yields_get_bind] at h
    split at h
    · exact (Run.yields_throw.mp h).elim
    · rename_i hfree
      rw [Run.yields_modify_bind] at h
      obtain ⟨rfl, rfl⟩ := Run.yields_pure.mp h
      refine ⟨rfl, rfl, rfl, ?_⟩
      intro p hp
      cases hp
      simpa using hfree

omit [Scalar R] in
theorem claimPath_fails {l : Level} {id : Option String} {s : State R} {f : Fault}
    (h : (claimPath l.path l.lead id).Fails s f) :
    ∃ p, l.fullId id = some p ∧ p ∈ s.paths ∧ f = .duplicatePath p := by
  cases id with
  | none => exact (Run.fails_pure.mp h).elim
  | some raw =>
    rw [claimPath, Run.fails_get_bind] at h
    split at h
    · rename_i hused
      exact ⟨_, rfl, by simpa using hused, (Run.fails_throw.mp h).symm⟩
    · rw [Run.fails_modify_bind] at h
      exact (Run.fails_pure.mp h).elim

end Storyboard.Flattening
