import Storyboard.Flattener
import Storyboard.Proofs.Flattening.Timing
import Storyboard.Proofs.Targets

namespace Storyboard

theorem Run.exec_bind_eq_error {σ α β : Type} {r : Run σ α} {g : α → Run σ β} {s s' : σ}
    {x : Fault} :
    (r >>= g).exec s = (.error x, s') ↔
      r.exec s = (.error x, s') ∨ ∃ a t, r.Yields s a t ∧ (g a).exec t = (.error x, s') := by
  unfold Run.Yields
  rw [Run.exec_bind]
  rcases r.exec s with ⟨a | a, t⟩ <;> simp

variable {R : Type}

namespace Flattener

open Flattening

/-- A computation with a flattener does what a computation with the state of flattening does, and
collects the tracks which that gives. -/
structure Collects {α : Type} (q : Run (Flattener R) α) (r : Run (State R) (α × List (Track R))) :
    Prop where
  yields : ∀ f a tracks s, r.Yields f.toState (a, tracks) s → q.Yields f a ⟨s, f.tracks ++ tracks⟩
  fails : ∀ f x s, r.exec f.toState = (.error x, s) → ∃ left, q.exec f = (.error x, ⟨s, left⟩)

theorem exec_within {α : Type} (r : Run (State R) α) (f : Flattener R) :
    (within r).exec f = ((r.exec f.toState).1, ⟨(r.exec f.toState).2, f.tracks⟩) := rfl

namespace Collects

variable {α β : Type} {q : Run (Flattener R) α} {r : Run (State R) (α × List (Track R))}

theorem pure (a : α) : Collects (Pure.pure a : Run (Flattener R) α) (Pure.pure (a, [])) where
  yields := by
    intro f b tracks s h
    obtain ⟨he, rfl⟩ := Run.yields_pure.mp h
    obtain ⟨rfl, rfl⟩ := Prod.mk.inj he
    rw [List.append_nil]
    exact Run.yields_pure.mpr ⟨rfl, rfl⟩
  fails := by
    intro f x s h
    cases h

theorem throw (x : Fault) :
    Collects (MonadExcept.throw x : Run (Flattener R) α) (MonadExcept.throw x) where
  yields := by
    intro f b tracks s h
    exact (Run.yields_throw.mp h).elim
  fails := by
    intro f y s h
    cases h
    exact ⟨f.tracks, rfl⟩

/-- One step after another: the tracks of the second stand behind those of the first. -/
theorem bind {g : α → Run (Flattener R) β} {k : α → Run (State R) (β × List (Track R))}
    (hq : Collects q r) (hg : ∀ a, Collects (g a) (k a)) :
    Collects (q >>= g) (do
      let (a, first) ← r
      let (b, more) ← k a
      return (b, first ++ more)) where
  yields := by
    intro f b tracks s h
    obtain ⟨⟨a, first⟩, t, hr, h⟩ := Run.yields_bind.mp h
    obtain ⟨⟨b', more⟩, t', hk, h⟩ := Run.yields_bind.mp h
    obtain ⟨he, rfl⟩ := Run.yields_pure.mp h
    obtain ⟨rfl, rfl⟩ := Prod.mk.inj he
    have hthen := (hg a).yields ⟨t, f.tracks ++ first⟩ b' more t' hk
    rw [List.append_assoc] at hthen
    exact Run.yields_bind.mpr ⟨a, _, hq.yields f a first t hr, hthen⟩
  fails := by
    intro f x s h
    rcases Run.exec_bind_eq_error.mp h with h | ⟨⟨a, first⟩, t, hr, h⟩
    · obtain ⟨left, hleft⟩ := hq.fails f x s h
      exact ⟨left, Run.exec_bind_eq_error.mpr (.inl hleft)⟩
    · rcases Run.exec_bind_eq_error.mp h with h | ⟨p, t', -, h⟩
      · obtain ⟨left, hleft⟩ := (hg a).fails ⟨t, f.tracks ++ first⟩ x s h
        refine ⟨left, Run.exec_bind_eq_error.mpr (.inr ⟨a, _, ?_, hleft⟩)⟩
        exact hq.yields f a first t hr
      · cases h

/-- A step that gives no tracks. -/
theorem ofWithin (r : Run (State R) α) :
    Collects (within r) (do
      let a ← r
      return (a, [])) where
  yields := by
    intro f b tracks s h
    obtain ⟨a, t, hr, h⟩ := Run.yields_bind.mp h
    obtain ⟨he, rfl⟩ := Run.yields_pure.mp h
    obtain ⟨rfl, rfl⟩ := Prod.mk.inj he
    rw [Run.Yields, exec_within, hr, List.append_nil]
  fails := by
    intro f x s h
    rcases Run.exec_bind_eq_error.mp h with h | ⟨a, t, -, h⟩
    · exact ⟨f.tracks, by rw [exec_within, h]⟩
    · cases h

theorem within_bind {r : Run (State R) α} {g : α → Run (Flattener R) β}
    {k : α → Run (State R) (β × List (Track R))} (hg : ∀ a, Collects (g a) (k a)) :
    Collects (within r >>= g) (r >>= k) := by
  simpa using (ofWithin r).bind hg

theorem lift_bind {o : Outcome α} {g : α → Run (Flattener R) β}
    {k : α → Run (State R) (β × List (Track R))} (hg : ∀ a, Collects (g a) (k a)) :
    Collects (Run.lift o >>= g) (Run.lift o >>= k) := by
  cases o with
  | ok a => exact hg a
  | error x => exact .throw x

theorem ofCollect (r : Run (State R) (List (Track R))) :
    Collects (collect r) (do
      let tracks ← r
      return ((), tracks)) where
  yields := by
    intro f b tracks s h
    obtain ⟨found, t, hr, h⟩ := Run.yields_bind.mp h
    obtain ⟨he, rfl⟩ := Run.yields_pure.mp h
    obtain ⟨rfl, rfl⟩ := Prod.mk.inj he
    refine Run.yields_bind.mpr ⟨found, ⟨t, f.tracks⟩, ?_, Run.yields_modify.mpr rfl⟩
    rw [Run.Yields, exec_within, hr]
  fails := by
    intro f x s h
    rcases Run.exec_bind_eq_error.mp h with h | ⟨a, t, -, h⟩
    · exact ⟨f.tracks, Run.exec_bind_eq_error.mpr (.inl (by rw [exec_within, h]))⟩
    · cases h

end Collects

section

variable [Scalar R] (d : Disk) (fps : Number R)

theorem collectAll_collects (objects : List (Object R)) (scope : String) (frames : FrameMap R)
    (entries : List (Entry R)) :
    Collects (collectAll d fps objects scope frames entries) (do
      let tracks ← emitAll d fps objects scope frames entries
      return ((), tracks)) := by
  induction entries with
  | nil => exact .pure ()
  | cons e rest ih =>
    rw [collectAll, emitAll]
    simpa using (Collects.ofCollect _).bind fun _ => ih

theorem collectTransitions_collects (group : Object R) (start : Int) (duration : Option Int)
    (transition : Option (GroupTransition R)) (path : Option String) :
    Collects (collectTransitions d fps group start duration transition path) (do
      let tracks ← groupTransitions d fps group start duration transition path
      return ((), tracks)) := by
  cases transition with
  | none => exact .pure ()
  | some t =>
    cases path with
    | none => exact .pure ()
    | some p =>
      have henter : Collects (collectEnter d fps group p start t.entry) (do
          let tracks ← enterTracks d fps group p start t.entry
          return ((), tracks)) := by
        cases t.entry with
        | none => exact .pure ()
        | some e => exact .ofCollect _
      have hleave : Collects (collectLeave d fps group p start duration t.leave) (do
          let tracks ← leaveTracks d fps group p start duration t.leave
          return ((), tracks)) := by
        cases t.leave with
        | none => cases duration <;> exact .pure ()
        | some l =>
          cases duration with
          | none => exact .throw _
          | some n => exact .ofCollect _
      rw [collectTransitions, groupTransitions, emitTransitions_eq]
      simpa using henter.bind fun _ => hleave

/-- What a group itself declares is collected in the order in which flattening gives it. -/
theorem own_collects (group : Object R) (children : List (Object R)) (inner lead : String)
    (own : TimeScope R) (duration : Option Int) (info : GroupInfo R) (path : Option String) :
    Collects (do
      collectTransitions d fps group own.start duration info.transition path
      collectAll d fps children inner (.scaled own) info.animations
      collectAll d fps children inner .absolute (info.resolved.map (withoutLead lead))
      return group) (do
      let transitions ← groupTransitions d fps group own.start duration info.transition path
      let animations ← emitAll d fps children inner (.scaled own) info.animations
      let resolved ← emitAll d fps children inner .absolute (info.resolved.map (withoutLead lead))
      return (group, transitions ++ (animations ++ resolved))) := by
  have htransitions := collectTransitions_collects d fps group own.start duration info.transition
    path
  have hanimations := collectAll_collects d fps children inner (.scaled own) info.animations
  have hresolved := collectAll_collects d fps children inner .absolute
    (info.resolved.map (withoutLead lead))
  simpa using htransitions.bind fun _ => hanimations.bind fun _ => hresolved.bind fun _ =>
    .pure group

/-- Going through objects collects the tracks that flattening gives for them. -/
theorem qualifyAll_collects (l : Level) (scope : TimeScope R) (objects : List (Object R)) :
    Collects (qualifyAll d fps l.path l.lead scope objects)
      (Flattening.qualifyAll d fps l.path l.lead scope objects) := by
  induction objects using Object.forest generalizing l scope with
  | nil =>
    rw [qualifyAll, Flattening.qualifyAll]
    exact .pure []
  | shape b s e rest ih =>
    have hfirst : Collects (qualify d fps l.path l.lead scope (.shape b s e))
        (Flattening.qualify d fps l.path l.lead scope (.shape b s e)) := by
      rw [qualify, Flattening.qualify]
      exact .within_bind fun path => .pure _
    rw [qualifyAll, Flattening.qualifyAll]
    simpa using hfirst.bind fun o => (ih l scope).bind fun others => .pure (o :: others)
  | reference b r e rest ih =>
    have hfirst : Collects (qualify d fps l.path l.lead scope (.reference b r e))
        (Flattening.qualify d fps l.path l.lead scope (.reference b r e)) := by
      rw [qualify, Flattening.qualify]
      exact .within_bind fun path => .pure _
    rw [qualifyAll, Flattening.qualifyAll]
    simpa using hfirst.bind fun o => (ih l scope).bind fun others => .pure (o :: others)
  | group b cs info e rest ihChildren ihRest =>
    have hfirst : Collects (qualify d fps l.path l.lead scope (.group b cs info e))
        (Flattening.qualify d fps l.path l.lead scope (.group b cs info e)) := by
      rw [qualify, qualify_group_eq]
      refine .within_bind fun path => .lift_bind fun own => ?_
      have hinner := ihChildren ⟨innerPath l.path path, innerNamespace l.lead b info⟩ own
      have hown (children : List (Object R)) (duration : Option Int) := own_collects d fps
        (.group { b with id := path } children (compiledInfo info own.start duration) e) children
        (innerPath l.path path) (innerNamespace l.lead b info) own duration info path
      simpa using hinner.bind fun children =>
        Collects.lift_bind (o := durationFrames fps info.duration) (hown children)
    rw [qualifyAll, Flattening.qualifyAll]
    simpa using hfirst.bind fun o => (ihRest l scope).bind fun others => .pure (o :: others)

/-- A flattener does what flattening does with its library. What else earlier calls have left in it
does not matter. -/
theorem flatten_exec (objects : List (Object R)) (entries : List (Entry R))
    (speed : Option (Number R)) (f : Flattener R) :
    (((flatten d fps objects entries speed).exec f).1,
        ((flatten d fps objects entries speed).exec f).2.library) =
      (Flattening.flatten d fps objects entries speed).exec f.library := by
  have hcollects : Collects (qualifyAll d fps "" "" (TimeScope.root speed) objects)
      (Flattening.qualifyAll d fps "" "" (TimeScope.root speed) objects) :=
    qualifyAll_collects d fps .root (TimeScope.root speed) objects
  have hflatten : (flatten d fps objects entries speed).exec f =
      (do
        let compiled ← qualifyAll d fps "" "" (TimeScope.root speed) objects
        let own ← within (emitAll d fps compiled "" (.scaled (TimeScope.root speed)) entries)
        return (compiled, own ++ (← get).tracks) : Run (Flattener R) _).exec
          ⟨⟨f.library, []⟩, []⟩ := rfl
  have hstateless : (Flattening.flatten d fps objects entries speed).exec f.library =
      (((flattenIn d fps objects entries speed).exec ⟨f.library, []⟩).1,
        ((flattenIn d fps objects entries speed).exec ⟨f.library, []⟩).2.library) := rfl
  rw [hflatten, hstateless, flattenIn, Run.exec_bind, Run.exec_bind]
  rcases hall : (Flattening.qualifyAll d fps "" "" (TimeScope.root speed) objects).exec
      ⟨f.library, []⟩ with ⟨x | ⟨compiled, below⟩, s⟩
  · obtain ⟨left, hleft⟩ := hcollects.fails ⟨⟨f.library, []⟩, []⟩ x s hall
    rw [hleft]
  · have hyields := hcollects.yields ⟨⟨f.library, []⟩, []⟩ compiled below s hall
    rw [Run.Yields] at hyields
    rw [hyields]
    dsimp only
    rw [Run.exec_bind, Run.exec_bind, exec_within]
    rcases (emitAll d fps compiled "" (.scaled (TimeScope.root speed)) entries).exec s with
      ⟨x | own, s'⟩ <;> rfl

end

end Flattener

/-- What a keyframe shows, whenever it comes: its value and its easing. -/
def Keyframe.shown (k : Keyframe R) : Quantity R × Option (Json R) := (k.value, k.easing)

variable [Scalar R]

namespace Flattening

/-- The track that is declared, if it is not the use of an effect. -/
def Cause.track? : Cause R → Option (Track R)
  | .entry (.track t) | .resolved (.track t) => some t
  | _ => none

/-- What is declared becomes tracks: a track becomes one, which shows the same, and an effect or a
transition becomes one for each property of the effect that it names. -/
structure Cause.Becomes (d : Disk) (library : EffectLibrary R) (cause : Cause R)
    (out : List (Track R)) : Prop where
  properties : cause.Moves d library (out.map Track.property)
  keyframes : ∀ t, cause.track? = some t → ∀ t' ∈ out,
    (t'.keyframes.map Keyframe.shown).Perm (t.keyframes.map Keyframe.shown)

omit [Scalar R] in
theorem placed_shown {frame : Quantity R → Outcome Int} {keyframes out : List (Keyframe R)}
    (h : Track.placed frame keyframes = .ok out) :
    (out.map Keyframe.shown).Perm (keyframes.map Keyframe.shown) := by
  obtain ⟨ks, hall, hperm⟩ := Track.placed_eq_ok h
  have hsame : ks.map Keyframe.shown = keyframes.map Keyframe.shown := by
    rw [← List.forall₂_eq_eq_eq, List.forall₂_map_left_iff, List.forall₂_map_right_iff]
    refine (hall.imp ?_).flip
    rintro k _ ⟨n, -, rfl⟩
    rfl
  rw [← hsame]
  exact hperm.map _

theorem EmitsEntry.shown {d : Disk} {library : EffectLibrary R} {fps : Number R}
    {objects : List (Object R)} {path : String} {frames : FrameMap R} {t : Track R}
    {out : List (Track R)} (h : EmitsEntry d library fps objects path frames (.track t) out) :
    ∀ t' ∈ out, (t'.keyframes.map Keyframe.shown).Perm (t.keyframes.map Keyframe.shown) := by
  obtain ⟨target, -, keyframes, hplaced, rfl⟩ := h
  intro t' ht'
  obtain rfl := List.mem_singleton.mp ht'
  exact placed_shown hplaced

theorem Source.Emits.becomes {d : Disk} {library : EffectLibrary R} {fps : Number R}
    {root : TimeScope R} {objects : List (Object R)} {src : Source R} {out : List (Track R)}
    (h : src.Emits d library fps root objects out) : src.cause.Becomes d library out := by
  refine ⟨h.moves, ?_⟩
  obtain ⟨own, level, -, -, h⟩ := h
  intro t ht
  rcases src with ⟨position, way, (t₀ | use) | (t₀ | use) | t₀ | t₀⟩ <;> cases ht
  · exact EmitsEntry.shown h
  · exact EmitsEntry.shown (t := { t with target := localId (Level.along way).lead t.target }) h

omit [Scalar R] in
/-- The sources in a tree are what its objects declare. -/
theorem sourcesFrom_perm (position : List Nat) (way : List (Object R)) (i : Nat)
    (objects : List (Object R)) :
    ((sourcesFrom position way i objects).map Source.cause).Perm
      ((Address.walk objects).flatMap fun o => ownCauses o.base o.groupInfo) := by
  induction objects using Object.descent generalizing position way i with
  | nil => exact .nil
  | cons o rest ihChildren ihRest =>
    have hown : ((ownCauses o.base o.groupInfo).map
        (Source.mk (position ++ [i]) (way ++ [o]))).map Source.cause =
        ownCauses o.base o.groupInfo := by
      simp [Function.comp_def]
    rw [sourcesFrom, sources_eq, Address.walk_cons, List.cons_append, List.flatMap_cons,
      List.flatMap_append, List.map_append, List.map_append, hown, ← List.append_assoc]
    -- A group comes before its children where it is declared, and its own tracks come after theirs.
    refine .append (.trans (.append_right _ ?_) List.perm_append_comm) (ihRest _ _ _)
    exact ihChildren _ _ _

end Flattening

/-- Whatever earlier calls have left in a flattener, finished or refused, its tracks are those of
everything that is declared, each exactly once: first those of the document, in their order, then
those of what the objects of the tree declare. -/
theorem Flattener.flatten_accounts {d : Disk} {fps : Number R} {objects compiled : List (Object R)}
    {entries : List (Entry R)} {speed : Option (Number R)} {tracks : List (Track R)}
    {f f' : Flattener R}
    (h : (flatten d fps objects entries speed).Yields f (compiled, tracks) f') :
    ∃ own below causes, tracks = own.flatten ++ below.flatten ∧
      List.Forall₂ (fun e out => (Flattening.Cause.entry e).Becomes d f.library out) entries own ∧
      List.Forall₂ (fun cause out => cause.Becomes d f.library out) causes below ∧
      causes.Perm ((Address.walk objects).flatMap fun o =>
        Flattening.ownCauses o.base o.groupInfo) := by
  have hexec := flatten_exec d fps objects entries speed f
  rw [h] at hexec
  obtain ⟨-, -, hemitted⟩ := Flattening.flatten_yields hexec.symm
  obtain ⟨own, below, rfl, ⟨outs, rfl, houts⟩, ⟨outs', rfl, houts'⟩⟩ := hemitted.of_append
  refine ⟨outs, outs', _, rfl, ?_, ?_, Flattening.sourcesFrom_perm [] [] 0 objects⟩
  · exact (List.forall₂_map_left_iff.mp houts).imp fun e out he => he.becomes
  · exact List.forall₂_map_left_iff.mpr (houts'.imp fun src out hsrc => hsrc.becomes)

namespace Flattener

open Flattening

/-- A call that is refused half-way: all paths of the tree are used twice. -/
def abortive : Run (Flattener Rat) (List (Object Rat) × List (Track Rat)) :=
  flatten Disk.empty (.real 30) (nestedGroups ++ nestedGroups) [] none

/-- What that call leaves behind. -/
def abandoned : Flattener Rat := (abortive.exec (ofLibrary fading)).2

/-- A refused call leaves paths and tracks behind, and the next one accounts for its own. -/
theorem abandoned_accounts :
    abortive.Fails (ofLibrary fading) (.duplicatePath "a") ∧ abandoned.paths = ["a.r", "a"] ∧
      abandoned.tracks.map Track.property = ["x", "opacity"] ∧
      ∃ (compiled : List (Object Rat)) (tracks : List (Track Rat)) (f' : Flattener Rat)
        (own below : List (List (Track Rat))) (causes : List (Cause Rat)),
        (flatten Disk.empty (.real 30) nestedGroups [.track ⟨"a.r", "y", [], []⟩] none).Yields
          abandoned (compiled, tracks) f' ∧
        tracks.map Track.property = ["y", "x", "opacity"] ∧ tracks = own.flatten ++ below.flatten ∧
        List.Forall₂ (fun cause out => cause.Becomes Disk.empty abandoned.library out) causes below ∧
        causes.Perm ((Address.walk nestedGroups).flatMap fun o =>
          ownCauses o.base o.groupInfo) := by
  have hfails : (abortive.exec (ofLibrary fading)).1.map (fun _ => ()) =
      .error (.duplicatePath "a") := by
    decide +kernel
  have hpaths : abandoned.paths = ["a.r", "a"] := by
    decide +kernel
  have htracks : abandoned.tracks.map Track.property = ["x", "opacity"] := by
    decide +kernel
  have hok : ((flatten Disk.empty (.real 30) nestedGroups [.track ⟨"a.r", "y", [], []⟩] none).exec
      abandoned).1.toOption.any (fun p =>
        decide (p.2.map Track.property = ["y", "x", "opacity"])) = true := by
    decide +kernel
  obtain ⟨⟨compiled, tracks⟩, f', hrun, hproperties⟩ := Run.yields_of_test _ hok
  obtain ⟨own, below, causes, htogether, -, hall, hperm⟩ := flatten_accounts hrun
  refine ⟨?_, hpaths, htracks, compiled, tracks, f', own, below, causes, hrun,
    of_decide_eq_true hproperties, htogether, hall, hperm⟩
  rw [Run.Fails]
  cases hrefused : (abortive.exec (ofLibrary fading)).1 with
  | ok p => simp [hrefused, Except.map] at hfails
  | error x => simpa [hrefused, Except.map] using hfails

end Flattener

end Storyboard
