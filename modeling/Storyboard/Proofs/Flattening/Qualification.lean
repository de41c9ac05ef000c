import Mathlib.Data.List.Nodup
import Storyboard.Proofs.Address
import Storyboard.Proofs.Flattening.Source

namespace Storyboard.Flattening

variable {R : Type} [Scalar R]

section

variable {d : Disk} {fps : Number R} {root own : TimeScope R} {objects level : List (Object R)}
  {way : List (Object R)}

theorem entries_emittedBy (objects : List (Object R)) (position : List Nat)
    {library : EffectLibrary R} {entries : List (Entry R)} {outs : List (List (Track R))}
    (hown : TimeScope.along fps root way = .ok own)
    (hlevel : absoluteAll fps (Level.along way) own (opened Object.children objects way) =
      .ok level)
    (h : List.Forall₂ (EmitsEntry d library fps level (Level.along way).path (.scaled own))
      entries outs) :
    EmittedBy d library fps root objects (entries.map (⟨position, way, .entry ·⟩))
      outs.flatten := by
  refine ⟨outs, rfl, List.forall₂_map_left_iff.mpr ?_⟩
  exact h.imp fun e out he => ⟨own, level, hown, hlevel, he⟩

theorem resolved_emittedBy (objects : List (Object R)) (position : List Nat)
    {library : EffectLibrary R} {entries : List (Entry R)} {outs : List (List (Track R))}
    (hown : TimeScope.along fps root way = .ok own)
    (hlevel : absoluteAll fps (Level.along way) own (opened Object.children objects way) =
      .ok level)
    (h : List.Forall₂ (EmitsEntry d library fps level (Level.along way).path .absolute)
      (entries.map (withoutLead (Level.along way).lead)) outs) :
    EmittedBy d library fps root objects (entries.map (⟨position, way, .resolved ·⟩))
      outs.flatten := by
  refine ⟨outs, rfl, List.forall₂_map_left_iff.mpr ?_⟩
  exact (List.forall₂_map_left_iff.mp h).imp fun e out he => ⟨own, level, hown, hlevel, he⟩

/-- The tracks with which a group appears. -/
def enterTracks (d : Disk) (fps : Number R) (group : Object R) (path : String) (start : Int) :
    Option (Transition R) → Run (State R) (List (Track R))
  | some t => emitTransition d fps group path start t
  | none => pure []

/-- The tracks with which a group disappears. -/
def leaveTracks (d : Disk) (fps : Number R) (group : Object R) (path : String) (start : Int) :
    Option Int → Option (Transition R) → Run (State R) (List (Track R))
  | _, none => pure []
  | some n, some t => emitTransition d fps group path (start + n) t
  | none, some _ => throw (.objects [.outTransitionWithoutDuration path])

theorem emitTransitions_eq (group : Object R) (path : String) (start : Int) (duration : Option Int)
    (t : GroupTransition R) :
    emitTransitions d fps group path start duration t = (do
      let entry ← enterTracks d fps group path start t.entry
      let leave ← leaveTracks d fps group path start duration t.leave
      return entry ++ leave) := by
  rcases t with ⟨_ | e, _ | l, x⟩ <;> cases duration <;> rfl

theorem emitTransition_yields {group : Object R} {path : String} {start : Int} {t : Transition R}
    {s s' : State R} {out : List (Track R)} (hid : group.id = some path)
    (h : (emitTransition d fps group path start t).Yields s out s') :
    EmitsTransition d s.library fps group start t out ∧ s.Keeps d s' := by
  obtain ⟨hout, hkeep⟩ := effectTracks_yields h
  exact ⟨⟨path, hid, hout⟩, hkeep⟩

theorem enterTracks_yields (objects : List (Object R)) (position : List Nat) {o c : Object R}
    {outer : TimeScope R} {path : String} {t : Option (Transition R)} {s s' : State R}
    {tracks : List (Track R)} (hid : c.id = some path)
    (houter : TimeScope.along fps root way = .ok outer)
    (hc : absolute fps (Level.along way) outer o = .ok c)
    (hown : TimeScope.along fps root (way ++ [o]) = .ok own)
    (hlevel : absoluteAll fps (Level.along (way ++ [o])) own o.children = .ok level)
    (h : (enterTracks d fps c path own.start t).Yields s tracks s') :
    EmittedBy d s.library fps root objects
      ((t.toList.map Cause.enter).map (⟨position, way ++ [o], ·⟩)) tracks ∧ s.Keeps d s' := by
  cases t with
  | none =>
    obtain ⟨rfl, rfl⟩ := Run.yields_pure.mp h
    exact ⟨.nil, .refl d s⟩
  | some x =>
    obtain ⟨hout, hkeep⟩ := emitTransition_yields hid h
    refine ⟨⟨[tracks], by simp, .cons ?_ .nil⟩, hkeep⟩
    exact ⟨own, level, hown, by rwa [opened_append_singleton], way, o, outer, c, rfl, houter, hc,
      hout⟩

theorem leaveTracks_yields (objects : List (Object R)) (position : List Nat) {o c : Object R}
    {outer : TimeScope R} {path : String} {duration : Option Int} {t : Option (Transition R)}
    {s s' : State R} {tracks : List (Track R)} (hid : c.id = some path)
    (houter : TimeScope.along fps root way = .ok outer)
    (hc : absolute fps (Level.along way) outer o = .ok c)
    (hown : TimeScope.along fps root (way ++ [o]) = .ok own)
    (hlevel : absoluteAll fps (Level.along (way ++ [o])) own o.children = .ok level)
    (hduration : durationFrames fps o.groupInfo.duration = .ok duration)
    (h : (leaveTracks d fps c path own.start duration t).Yields s tracks s') :
    EmittedBy d s.library fps root objects
      ((t.toList.map Cause.leave).map (⟨position, way ++ [o], ·⟩)) tracks ∧ s.Keeps d s' := by
  cases t with
  | none =>
    rw [leaveTracks] at h
    obtain ⟨rfl, rfl⟩ := Run.yields_pure.mp h
    exact ⟨.nil, .refl d s⟩
  | some x =>
    cases duration with
    | none => exact (Run.yields_throw.mp h).elim
    | some n =>
      obtain ⟨hout, hkeep⟩ := emitTransition_yields hid h
      refine ⟨⟨[tracks], by simp, .cons ?_ .nil⟩, hkeep⟩
      exact ⟨own, level, hown, by rwa [opened_append_singleton], way, o, outer, c, n, rfl, houter,
        hc, hduration, hout⟩

/-- The transitions of a group are compiled from its start and from its end. -/
theorem emitTransitions_yields (objects : List (Object R)) (position : List Nat) {o c : Object R}
    {outer : TimeScope R} {path : String} {duration : Option Int} {t : GroupTransition R}
    {s s' : State R} {tracks : List (Track R)} (hid : c.id = some path)
    (houter : TimeScope.along fps root way = .ok outer)
    (hc : absolute fps (Level.along way) outer o = .ok c)
    (hown : TimeScope.along fps root (way ++ [o]) = .ok own)
    (hlevel : absoluteAll fps (Level.along (way ++ [o])) own o.children = .ok level)
    (hduration : durationFrames fps o.groupInfo.duration = .ok duration)
    (h : (emitTransitions d fps c path own.start duration t).Yields s tracks s') :
    EmittedBy d s.library fps root objects ((t.entry.toList.map Cause.enter ++
      t.leave.toList.map Cause.leave).map (⟨position, way ++ [o], ·⟩)) tracks ∧ s.Keeps d s' := by
  rw [emitTransitions_eq] at h
  obtain ⟨entry, s₁, hentry, h⟩ := Run.yields_bind.mp h
  obtain ⟨leave, s₂, hleave, h⟩ := Run.yields_bind.mp h
  obtain ⟨rfl, rfl⟩ := Run.yields_pure.mp h
  obtain ⟨hin, hkeep⟩ := enterTracks_yields objects position hid houter hc hown hlevel hentry
  obtain ⟨hout, hkeep'⟩ :=
    leaveTracks_yields objects position hid houter hc hown hlevel hduration hleave
  refine ⟨?_, hkeep.trans hkeep'⟩
  rw [List.map_append]
  exact hin.append (hout.mono hkeep.library)

/-- The tracks of the transitions that a group declares, if it has a path. -/
def groupTransitions (d : Disk) (fps : Number R) (group : Object R) (start : Int)
    (duration : Option Int) :
    Option (GroupTransition R) → Option String → Run (State R) (List (Track R))
  | some t, some path => emitTransitions d fps group path start duration t
  | _, _ => pure []

theorem groupTransitions_yields (objects : List (Object R)) (position : List Nat) {b : Base R}
    {cs : List (Object R)} {info : GroupInfo R} {e : Members R} {c : Object R}
    {outer : TimeScope R} {duration : Option Int} {s s' : State R} {tracks : List (Track R)}
    (houter : TimeScope.along fps root way = .ok outer)
    (hc : absolute fps (Level.along way) outer (.group b cs info e) = .ok c)
    (hown : TimeScope.along fps root (way ++ [.group b cs info e]) = .ok own)
    (hlevel : absoluteAll fps (Level.along (way ++ [.group b cs info e])) own cs = .ok level)
    (hduration : durationFrames fps info.duration = .ok duration)
    (h : (groupTransitions d fps c own.start duration info.transition
      ((Level.along way).fullId b.id)).Yields s tracks s') :
    EmittedBy d s.library fps root objects
      ((transitionCauses b info).map (⟨position, way ++ [.group b cs info e], ·⟩)) tracks ∧
      s.Keeps d s' := by
  have hid : c.id = (Level.along way).fullId b.id := absolute_id hc
  rw [transitionCauses]
  cases ht : info.transition with
  | none =>
    rw [ht] at h
    obtain ⟨rfl, rfl⟩ := Run.yields_pure.mp h
    exact ⟨.nil, .refl d s⟩
  | some t =>
    cases hb : b.id with
    | none =>
      rw [ht, hb] at h
      obtain ⟨rfl, rfl⟩ := Run.yields_pure.mp h
      exact ⟨.nil, .refl d s⟩
    | some raw =>
      rw [hb, Level.fullId_some] at hid
      rw [ht, hb, Level.fullId_some] at h
      exact emitTransitions_yields objects position hid houter hc hown hlevel hduration h

theorem qualify_group_eq (l : Level) (scope : TimeScope R) (b : Base R) (cs : List (Object R))
    (info : GroupInfo R) (e : Members R) :
    qualify d fps l.path l.lead scope (.group b cs info e) = (do
      let path ← claimPath l.path l.lead b.id
      let own ← Run.lift (scope.enter info fps)
      let (children, below) ← qualifyAll d fps (innerPath l.path path)
        (innerNamespace l.lead b info) own cs
      let duration ← Run.lift (durationFrames fps info.duration)
      let compiled : Object R :=
        .group { b with id := path } children (compiledInfo info own.start duration) e
      let transitions ← groupTransitions d fps compiled own.start duration info.transition path
      let animations ← emitAll d fps children (innerPath l.path path) (.scaled own) info.animations
      let resolved ← emitAll d fps children (innerPath l.path path) .absolute
        (info.resolved.map (withoutLead (innerNamespace l.lead b info)))
      return (compiled, below ++ transitions ++ animations ++ resolved)) := by
  rw [qualify]
  refine bind_congr fun path => bind_congr fun own => bind_congr fun inner => ?_
  refine bind_congr fun duration => ?_
  cases info.transition <;> cases path <;> rfl

end

/-- A stretch of flattening that compiles sources to tracks and takes paths, none of them in use. -/
structure State.Advances (d : Disk) (fps : Number R) (root : TimeScope R)
    (objects : List (Object R)) (srcs : List (Source R)) (taken : List String)
    (tracks : List (Track R)) (s s' : State R) : Prop where
  library : s'.library.Within d s.library
  paths : s'.paths = taken.reverse ++ s.paths
  nodup : s.paths.Nodup → s'.paths.Nodup
  emitted : EmittedBy d s.library fps root objects srcs tracks

namespace State.Advances

variable {d : Disk} {fps : Number R} {root : TimeScope R} {objects : List (Object R)}
  {s s₁ s' : State R}

theorem refl (d : Disk) (fps : Number R) (root : TimeScope R) (objects : List (Object R))
    (s : State R) : s.Advances d fps root objects [] [] [] s :=
  ⟨.refl d _, rfl, id, .nil⟩

theorem trans {srcs more : List (Source R)} {taken others : List String}
    {tracks below : List (Track R)} (h : s.Advances d fps root objects srcs taken tracks s₁)
    (h' : s₁.Advances d fps root objects more others below s') :
    s.Advances d fps root objects (srcs ++ more) (taken ++ others) (tracks ++ below) s' where
  library := h'.library.trans h.library
  paths := by rw [h'.paths, h.paths, List.reverse_append, List.append_assoc]
  nodup := h'.nodup ∘ h.nodup
  emitted := h.emitted.append (h'.emitted.mono h.library)

theorem ofKeeps {srcs : List (Source R)} {tracks : List (Track R)}
    (hemitted : EmittedBy d s.library fps root objects srcs tracks) (hkeep : s.Keeps d s') :
    s.Advances d fps root objects srcs [] tracks s' where
  library := hkeep.library
  paths := hkeep.paths
  nodup := by rw [hkeep.paths]; exact id
  emitted := hemitted

theorem ofClaim (d : Disk) (fps : Number R) (root : TimeScope R) (objects : List (Object R))
    {l : Level} {id path : Option String} (h : (claimPath l.path l.lead id).Yields s path s') :
    path = l.fullId id ∧ s.Advances d fps root objects [] path.toList [] s' := by
  obtain ⟨hpath, hlibrary, hpaths, hfree⟩ := claimPath_yields h
  refine ⟨hpath, ⟨by rw [hlibrary]; exact .refl d _, ?_, ?_, .nil⟩⟩
  · cases path <;> exact hpaths
  · intro hnodup
    rw [hpaths]
    cases path with
    | none => exact hnodup
    | some p => exact List.nodup_cons.mpr ⟨hfree p rfl, hnodup⟩

end State.Advances

section

variable {d : Disk} {fps : Number R} {root scope : TimeScope R} {objects : List (Object R)}
  {way : List (Object R)}

theorem qualifyAll_cons_yields {parent lead : String} {o : Object R}
    {rest compiled : List (Object R)} {tracks : List (Track R)} {s s' : State R}
    (h : (qualifyAll d fps parent lead scope (o :: rest)).Yields s (compiled, tracks) s') :
    ∃ c below s₁ others more, (qualify d fps parent lead scope o).Yields s (c, below) s₁ ∧
      (qualifyAll d fps parent lead scope rest).Yields s₁ (others, more) s' ∧
      compiled = c :: others ∧ tracks = below ++ more := by
  rw [qualifyAll] at h
  obtain ⟨⟨c, below⟩, s₁, hfirst, h⟩ := Run.yields_bind.mp h
  obtain ⟨⟨others, more⟩, s₂, hothers, h⟩ := Run.yields_bind.mp h
  obtain ⟨he, rfl⟩ := Run.yields_pure.mp h
  obtain ⟨rfl, rfl⟩ := Prod.mk.inj he
  exact ⟨c, below, s₁, others, more, hfirst, hothers, rfl, rfl⟩

/-- The own tracks of a group, once its children are compiled. -/
theorem ownTracks_yields (objects : List (Object R)) (position : List Nat) {b : Base R}
    {cs children : List (Object R)} {info : GroupInfo R} {e : Members R} {own : TimeScope R}
    {duration : Option Int} {transitions animations resolved : List (Track R)}
    {s s₁ s₂ s' : State R} {c : Object R}
    (hscope : TimeScope.along fps root way = .ok scope)
    (hown : scope.enter info fps = .ok own)
    (hchildren : absoluteAll fps (Level.along (way ++ [.group b cs info e])) own cs = .ok children)
    (hduration : durationFrames fps info.duration = .ok duration)
    (hc : absolute fps (Level.along way) scope (.group b cs info e) = .ok c)
    (ht : (groupTransitions d fps c own.start duration info.transition
      ((Level.along way).fullId b.id)).Yields s transitions s₁)
    (ha : (emitAll d fps children (Level.along (way ++ [.group b cs info e])).path (.scaled own)
      info.animations).Yields s₁ animations s₂)
    (hr : (emitAll d fps children (Level.along (way ++ [.group b cs info e])).path .absolute
      (info.resolved.map (withoutLead (Level.along (way ++ [.group b cs info e])).lead))).Yields
      s₂ resolved s') :
    s.Advances d fps root objects
      ((ownCauses b info).map (⟨position, way ++ [.group b cs info e], ·⟩)) []
      (transitions ++ animations ++ resolved) s' := by
  have halong : TimeScope.along fps root (way ++ [.group b cs info e]) = .ok own :=
    TimeScope.along_concat_eq_ok.mpr ⟨scope, hscope, hown⟩
  have hlevel : absoluteAll fps (Level.along (way ++ [.group b cs info e])) own
      (opened Object.children objects (way ++ [.group b cs info e])) = .ok children := by
    rwa [opened_append_singleton]
  obtain ⟨htransitions, hkeep⟩ := groupTransitions_yields objects position hscope hc halong
    hchildren hduration ht
  obtain ⟨⟨outs, rfl, hall⟩, hkeep'⟩ := emitAll_yields ha
  obtain ⟨⟨outs', rfl, hall'⟩, hkeep''⟩ := emitAll_yields hr
  have hanimations := entries_emittedBy objects position halong hlevel hall
  have hresolved := resolved_emittedBy objects position halong hlevel hall'
  have := ((State.Advances.ofKeeps htransitions hkeep).trans (.ofKeeps hanimations hkeep')).trans
    (.ofKeeps hresolved hkeep'')
  simpa [ownCauses, List.map_append, List.map_map, Function.comp_def] using this

/-- A group is compiled to its absolute form if its children are. Its path is taken before those of
its children, and its own tracks come last. -/
theorem qualify_group_yields (objects : List (Object R)) (position : List Nat) {b : Base R}
    {cs : List (Object R)} {info : GroupInfo R} {e : Members R} {c : Object R}
    {below : List (Track R)} {s s' : State R}
    (hscope : TimeScope.along fps root way = .ok scope)
    (hinner : ∀ {own : TimeScope R} {children : List (Object R)} {tracks : List (Track R)}
      {t t' : State R}, TimeScope.along fps root (way ++ [.group b cs info e]) = .ok own →
      (qualifyAll d fps (Level.along (way ++ [.group b cs info e])).path
        (Level.along (way ++ [.group b cs info e])).lead own cs).Yields t (children, tracks) t' →
      absoluteAll fps (Level.along (way ++ [.group b cs info e])) own cs = .ok children ∧
        t.Advances d fps root objects (sourcesFrom position (way ++ [.group b cs info e]) 0 cs)
          (Address.ids children) tracks t')
    (h : (qualify d fps (Level.along way).path (Level.along way).lead scope
      (.group b cs info e)).Yields s (c, below) s') :
    absolute fps (Level.along way) scope (.group b cs info e) = .ok c ∧
      s.Advances d fps root objects (sources position way (.group b cs info e))
        (c.id.toList ++ Address.ids c.children) below s' := by
  rw [qualify_group_eq] at h
  obtain ⟨path, s₁, hclaim, h⟩ := Run.yields_bind.mp h
  obtain ⟨rfl, hadv⟩ := State.Advances.ofClaim d fps root objects hclaim
  obtain ⟨own, hown, h⟩ := Run.yields_lift_bind.mp h
  obtain ⟨⟨children, below'⟩, s₂, hbelow, h⟩ := Run.yields_bind.mp h
  obtain ⟨duration, hduration, h⟩ := Run.yields_lift_bind.mp h
  obtain ⟨transitions, s₃, ht, h⟩ := Run.yields_bind.mp h
  obtain ⟨animations, s₄, ha, h⟩ := Run.yields_bind.mp h
  obtain ⟨resolved, s₅, hr, h⟩ := Run.yields_bind.mp h
  obtain ⟨he, rfl⟩ := Run.yields_pure.mp h
  obtain ⟨rfl, rfl⟩ := Prod.mk.inj he
  rw [← Level.path_along_concat way b cs info e] at hbelow ha hr
  rw [← Level.lead_along_concat way b cs info e] at hbelow hr
  obtain ⟨hchildren, hadv'⟩ :=
    hinner (TimeScope.along_concat_eq_ok.mpr ⟨scope, hscope, hown⟩) hbelow
  have hcompiled : absolute fps (Level.along way) scope (.group b cs info e) =
      .ok (.group { b with id := (Level.along way).fullId b.id } children
        (compiledInfo info own.start duration) e) := by
    rw [absolute_group_eq_ok, ← Level.along_concat]
    exact ⟨own, children, duration, hown, hchildren, hduration, rfl⟩
  have hadv'' := ownTracks_yields objects position hscope hown hchildren hduration hcompiled ht
    ha hr
  refine ⟨hcompiled, ?_⟩
  simpa [sources, Object.id, Object.base, Object.children] using (hadv.trans hadv').trans hadv''

/-- Objects are compiled to the tree that `absoluteAll` describes. Their paths are taken, and their
tracks are those of their sources. -/
theorem qualifyAll_yields (objects : List (Object R)) (position : List Nat) (i : Nat)
    {os compiled : List (Object R)} {tracks : List (Track R)} {s s' : State R}
    (hscope : TimeScope.along fps root way = .ok scope)
    (h : (qualifyAll d fps (Level.along way).path (Level.along way).lead scope os).Yields s
      (compiled, tracks) s') :
    absoluteAll fps (Level.along way) scope os = .ok compiled ∧
      s.Advances d fps root objects (sourcesFrom position way i os) (Address.ids compiled) tracks
        s' := by
  -- The way down is generalized: the children of a group are compiled below the group.
  induction os using Object.forest generalizing way scope compiled position i tracks s s' with
  | nil =>
    obtain ⟨he, rfl⟩ := Run.yields_pure.mp h
    obtain ⟨rfl, rfl⟩ := Prod.mk.inj he
    exact ⟨rfl, .refl d fps root objects s⟩
  | shape b sh e rest ih | reference b r e rest ih =>
    obtain ⟨c, below, s₁, others, more, hfirst, hothers, rfl, rfl⟩ := qualifyAll_cons_yields h
    rw [qualify] at hfirst
    obtain ⟨path, s₂, hclaim, hfirst⟩ := Run.yields_bind.mp hfirst
    obtain ⟨he, rfl⟩ := Run.yields_pure.mp hfirst
    obtain ⟨rfl, rfl⟩ := Prod.mk.inj he
    obtain ⟨rfl, hadv⟩ := State.Advances.ofClaim d fps root objects hclaim
    obtain ⟨hrest, hadv'⟩ := ih position (i + 1) hscope hothers
    refine ⟨absoluteAll_eq_ok.mpr (.cons rfl (absoluteAll_eq_ok.mp hrest)), ?_⟩
    rw [Address.ids_cons]
    simpa [sources, sourcesFrom, Object.id, Object.base, Object.children] using hadv.trans hadv'
  | group b cs info e rest ihChildren ihRest =>
    obtain ⟨c, below, s₁, others, more, hfirst, hothers, rfl, rfl⟩ := qualifyAll_cons_yields h
    obtain ⟨hcompiled, hadv⟩ := qualify_group_yields objects (position ++ [i]) hscope
      (fun halong hbelow => ihChildren (position ++ [i]) 0 halong hbelow) hfirst
    obtain ⟨hrest, hadv'⟩ := ihRest position (i + 1) hscope hothers
    refine ⟨absoluteAll_eq_ok.mpr (.cons hcompiled (absoluteAll_eq_ok.mp hrest)), ?_⟩
    rw [Address.ids_cons, sourcesFrom]
    exact hadv.trans hadv'

/-- Flattening gives the tree that `absoluteAll` describes, whose paths are distinct, and the tracks
of its sources in their order. -/
theorem flatten_yields {entries : List (Entry R)} {speed : Option (Number R)}
    {compiled : List (Object R)} {tracks : List (Track R)} {library library' : EffectLibrary R}
    (h : (flatten d fps objects entries speed).Yields library (compiled, tracks) library') :
    absoluteAll fps Level.root (TimeScope.root speed) objects = .ok compiled ∧
      (Address.ids compiled).Nodup ∧
      EmittedBy d library fps (TimeScope.root speed) objects (sourcesOfAll objects entries)
        tracks := by
  rw [flatten, Run.yields_get_bind, Run.yields_set_bind] at h
  obtain ⟨hanswer, -⟩ := Run.yields_lift.mp h
  have hrun : (flattenIn d fps objects entries speed).Yields ⟨library, []⟩ (compiled, tracks)
      ((flattenIn d fps objects entries speed).exec ⟨library, []⟩).2 := Prod.ext hanswer rfl
  rw [flattenIn] at hrun
  obtain ⟨⟨compiled', below⟩, s₁, hall, hrun⟩ := Run.yields_bind.mp hrun
  obtain ⟨own, s₂, hown, hrun⟩ := Run.yields_bind.mp hrun
  obtain ⟨he, -⟩ := Run.yields_pure.mp hrun
  obtain ⟨rfl, rfl⟩ := Prod.mk.inj he
  have hroot : TimeScope.along fps (TimeScope.root speed) [] = .ok (TimeScope.root speed) := rfl
  obtain ⟨hcompiled, hadv⟩ := qualifyAll_yields objects [] 0 hroot hall
  obtain ⟨⟨outs, rfl, houts⟩, -⟩ := emitAll_yields hown
  refine ⟨hcompiled, ?_, ?_⟩
  · have hnodup := hadv.nodup List.nodup_nil
    rw [hadv.paths, List.append_nil] at hnodup
    exact List.nodup_reverse.mp hnodup
  · have hentries := entries_emittedBy objects [] hroot hcompiled houts
    exact (hentries.mono hadv.library).append hadv.emitted

end

end Storyboard.Flattening
