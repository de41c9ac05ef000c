import Storyboard.Proofs.Flattening.Qualification

namespace Storyboard.Flattening

variable {R : Type} [Scalar R]

/-- A stretch of flattening that takes paths and forgets no effect. -/
structure State.Proceeds (d : Disk) (taken : List String) (s s' : State R) : Prop where
  library : s.library.Within d s'.library
  paths : s'.paths = taken.reverse ++ s.paths

namespace State.Proceeds

variable {d : Disk} {s t u : State R}

theorem refl (d : Disk) (s : State R) : s.Proceeds d [] s := ⟨.refl d _, rfl⟩

theorem trans {taken others : List String} (h : s.Proceeds d taken t)
    (h' : t.Proceeds d others u) : s.Proceeds d (taken ++ others) u where
  library := h.library.trans h'.library
  paths := by rw [h'.paths, h.paths, List.reverse_append, List.append_assoc]

end State.Proceeds

/-- Paths that differ from each other and are not in use. -/
structure State.Admits (s : State R) (paths : List String) : Prop where
  nodup : paths.Nodup
  free : ∀ p ∈ paths, p ∉ s.paths

namespace State.Admits

variable {d : Disk} {s t : State R} {taken others : List String}

omit [Scalar R] in
theorem of_append (h : s.Admits (taken ++ others)) : s.Admits taken where
  nodup := h.nodup.of_append_left
  free := fun p hp => h.free p (List.mem_append_left _ hp)

/-- Paths that are admitted together may be taken one part after the other. -/
theorem of_proceeds (h : s.Admits (taken ++ others)) (hs : s.Proceeds d taken t) :
    t.Admits others where
  nodup := h.nodup.of_append_right
  free := by
    intro p hp hused
    rw [hs.paths, List.mem_append, List.mem_reverse] at hused
    rcases hused with htaken | hused
    · exact (List.nodup_append.mp h.nodup).2.2 p htaken p hp rfl
    · exact h.free p (List.mem_append_right _ hp) hused

end State.Admits

/-- From a state a computation gives a result of a kind, on the way to which it takes paths and
forgets no effect. -/
def Completes {α : Type} (d : Disk) (s : State R) (r : Run (State R) α) (taken : List String)
    (post : α → Prop) : Prop :=
  ∃ a s', r.Yields s a s' ∧ s.Proceeds d taken s' ∧ post a

namespace Completes

variable {α β : Type} {d : Disk} {s : State R} {taken others : List String} {post : α → Prop}
  {post' : β → Prop}

theorem pure {a : α} (h : post a) : Completes d s (pure a) [] post :=
  ⟨a, s, Run.yields_pure.mpr ⟨rfl, rfl⟩, .refl d s, h⟩

theorem bind {r : Run (State R) α} {g : α → Run (State R) β} (hr : Completes d s r taken post)
    (hg : ∀ a t, s.Proceeds d taken t → post a → Completes d t (g a) others post') :
    Completes d s (r >>= g) (taken ++ others) post' := by
  obtain ⟨a, t, ha, hproceeds, hpost⟩ := hr
  obtain ⟨b, u, hb, hproceeds', hpost'⟩ := hg a t hproceeds hpost
  exact ⟨b, u, Run.yields_bind.mpr ⟨a, t, ha, hb⟩, hproceeds.trans hproceeds', hpost'⟩

theorem map {r : Run (State R) α} {f : α → β} (hr : Completes d s r taken post)
    (h : ∀ a, post a → post' (f a)) : Completes d s (r >>= fun a => Pure.pure (f a)) taken post' := by
  obtain ⟨a, t, ha, hproceeds, hpost⟩ := hr
  exact ⟨f a, t, Run.yields_bind.mpr ⟨a, t, ha, Run.yields_pure.mpr ⟨rfl, rfl⟩⟩, hproceeds,
    h a hpost⟩

theorem lift_bind {o : Outcome α} {a : α} {g : α → Run (State R) β} (ho : o = .ok a)
    (h : Completes d s (g a) taken post') : Completes d s (Run.lift o >>= g) taken post' := by
  obtain ⟨b, t, hb, hproceeds, hpost⟩ := h
  exact ⟨b, t, Run.yields_lift_bind.mpr ⟨a, ho, hb⟩, hproceeds, hpost⟩

end Completes

section

variable {d : Disk} {fps : Number R} {s : State R}

theorem effectTracks_of_emits {use : EffectUse R} {target : Object R} {start : Int}
    {frames : FrameMap R} {out : List (Track R)}
    (h : EmitsEffect d s.library fps use target start frames out) :
    Completes d s (effectTracks d fps use target start frames) [] fun _ => True := by
  obtain ⟨effect, tracks, hgives, htracks, hall⟩ := h
  obtain ⟨library, hget, hwithin⟩ := EffectLibrary.get_of_gives hgives
  refine ⟨out, { s with library := library }, ?_, ⟨hwithin, rfl⟩, trivial⟩
  refine Run.yields_bind.mpr ⟨tracks, _, withLibrary_yields.mpr ⟨library, ?_, rfl⟩, ?_⟩
  · exact Run.yields_bind.mpr ⟨effect, library, hget, Run.yields_lift.mpr ⟨htracks, rfl⟩⟩
  · refine Run.yields_lift.mpr ⟨Outcome.mapM_eq_ok.mpr (hall.imp fun t t' ht => ?_), rfl⟩
    obtain ⟨keyframes, hplaced, rfl⟩ := ht
    exact Outcome.bind_eq_ok.mpr ⟨keyframes, hplaced, rfl⟩

theorem emit_of_emits {objects : List (Object R)} {path : String} {frames : FrameMap R}
    {entry : Entry R} {out : List (Track R)}
    (h : EmitsEntry d s.library fps objects path frames entry out) :
    Completes d s (emit d fps objects path frames entry) [] fun _ => True := by
  obtain ⟨target, htarget, h⟩ := h
  refine .lift_bind htarget ?_
  cases entry with
  | effect e =>
    obtain ⟨start, hstart, h⟩ := h
    exact .lift_bind hstart (effectTracks_of_emits h)
  | track t =>
    obtain ⟨keyframes, hplaced, -⟩ := h
    exact .lift_bind hplaced (.pure trivial)

theorem emitAll_of_emits {objects : List (Object R)} {path : String} {frames : FrameMap R}
    {entries : List (Entry R)}
    (h : ∀ e ∈ entries, ∃ out, EmitsEntry d s.library fps objects path frames e out) :
    Completes d s (emitAll d fps objects path frames entries) [] fun _ => True := by
  induction entries generalizing s with
  | nil => exact .pure trivial
  | cons e rest ih =>
    obtain ⟨out, hout⟩ := h e List.mem_cons_self
    refine (emit_of_emits hout).bind fun first s₁ hkept _ => ?_
    refine Completes.map (ih fun e he => ?_) fun _ _ => trivial
    obtain ⟨out, hout⟩ := h e (List.mem_cons_of_mem _ he)
    exact ⟨out, hout.mono hkept.library⟩

theorem claimPath_of_free {l : Level} {id : Option String}
    (h : s.Admits (l.fullId id).toList) :
    Completes d s (claimPath l.path l.lead id) (l.fullId id).toList (· = l.fullId id) := by
  cases id with
  | none => exact .pure rfl
  | some raw =>
    have hfree : ¬ s.paths.contains (Address.join l.path (localId l.lead raw)) = true := by
      simpa using h.free
    refine ⟨l.fullId (some raw), { s with paths := Address.join l.path (localId l.lead raw) ::
      s.paths }, ?_, ⟨.refl d _, rfl⟩, rfl⟩
    rw [claimPath, Run.yields_get_bind, if_neg hfree, Run.yields_modify_bind]
    exact Run.yields_pure.mpr ⟨rfl, rfl⟩

/-- Tracks of a cause that a group declares: on the compiled children of the group, or on the
compiled group `c` itself. -/
def Cause.EmitsWithin (d : Disk) (library : EffectLibrary R) (fps : Number R) (l : Level)
    (own : TimeScope R) (duration : Option Int) (c : Object R) (children : List (Object R)) :
    Cause R → List (Track R) → Prop
  | .entry x, out => EmitsEntry d library fps children l.path (.scaled own) x out
  | .resolved x, out =>
    EmitsEntry d library fps children l.path .absolute (withoutLead l.lead x) out
  | .enter x, out => EmitsTransition d library fps c own.start x out
  | .leave x, out => ∃ n, duration = some n ∧ EmitsTransition d library fps c (own.start + n) x out

theorem Cause.EmitsWithin.mono {k library : EffectLibrary R} {l : Level} {own : TimeScope R}
    {duration : Option Int} {c : Object R} {children : List (Object R)} {cause : Cause R}
    {out : List (Track R)} (h : cause.EmitsWithin d k fps l own duration c children out)
    (hk : k.Within d library) : cause.EmitsWithin d library fps l own duration c children out := by
  cases cause with
  | entry x | resolved x => exact EmitsEntry.mono h hk
  | enter x => exact EmitsTransition.mono h hk
  | leave x =>
    obtain ⟨n, hn, h⟩ := h
    exact ⟨n, hn, h.mono hk⟩

theorem emitTransition_of_emits {c : Object R} {path : String} {start : Int} {t : Transition R}
    {out : List (Track R)} (hid : c.id = some path)
    (h : EmitsTransition d s.library fps c start t out) :
    Completes d s (emitTransition d fps c path start t) [] fun _ => True := by
  obtain ⟨path', hpath, h⟩ := h
  obtain rfl : path = path' := Option.some.inj (hid.symm.trans hpath)
  exact effectTracks_of_emits h

variable {c : Object R} {duration : Option Int}

theorem enterTracks_of_emits {path : String} {start : Int} {t : Option (Transition R)}
    (hid : c.id = some path)
    (h : ∀ x ∈ t, ∃ out, EmitsTransition d s.library fps c start x out) :
    Completes d s (enterTracks d fps c path start t) [] fun _ => True := by
  cases t with
  | none => exact .pure trivial
  | some x =>
    obtain ⟨out, hout⟩ := h x rfl
    exact emitTransition_of_emits hid hout

theorem leaveTracks_of_emits {path : String} {start : Int} {t : Option (Transition R)}
    (hid : c.id = some path)
    (h : ∀ x ∈ t, ∃ out n, duration = some n ∧
      EmitsTransition d s.library fps c (start + n) x out) :
    Completes d s (leaveTracks d fps c path start duration t) [] fun _ => True := by
  cases t with
  | none =>
    rw [leaveTracks]
    exact .pure trivial
  | some x =>
    obtain ⟨out, n, rfl, hout⟩ := h x rfl
    exact emitTransition_of_emits hid hout

variable {l : Level} {own : TimeScope R} {children : List (Object R)}

/-- The transitions of a compiled group have tracks if each of them has. -/
theorem groupTransitions_of_emits {outer : Level} {b : Base R} {info : GroupInfo R}
    (hid : c.id = outer.fullId b.id)
    (h : ∀ cause ∈ transitionCauses b info,
      ∃ out, cause.EmitsWithin d s.library fps l own duration c children out) :
    Completes d s (groupTransitions d fps c own.start duration info.transition
      (outer.fullId b.id)) [] fun _ => True := by
  rw [transitionCauses] at h
  cases ht : info.transition with
  | none => exact .pure trivial
  | some t =>
    cases hb : b.id with
    | none => exact .pure trivial
    | some raw =>
      rw [hb, Level.fullId_some] at hid
      rw [ht, hb] at h
      rw [Level.fullId_some, groupTransitions, emitTransitions_eq]
      have hentry : ∀ x ∈ t.entry, ∃ out, EmitsTransition d s.library fps c own.start x out :=
        fun x hx => h (.enter x) (by simpa using hx)
      refine (enterTracks_of_emits hid hentry).bind fun entry s₁ hkept _ => ?_
      refine Completes.map (leaveTracks_of_emits hid fun x hx => ?_) fun _ _ => trivial
      obtain ⟨out, n, hn, hout⟩ := h (.leave x) (by simpa using hx)
      exact ⟨out, n, hn, EmitsTransition.mono hout hkept.library⟩

/-- The own tracks of a compiled group, given that its causes have tracks. -/
theorem ownTracks_of_emits {outer : Level} {b : Base R} {info : GroupInfo R}
    (below : List (Track R)) (hid : c.id = outer.fullId b.id)
    (h : ∀ cause ∈ ownCauses b info,
      ∃ out, cause.EmitsWithin d s.library fps l own duration c children out) :
    Completes d s (do
      let transitions ← groupTransitions d fps c own.start duration info.transition
        (outer.fullId b.id)
      let animations ← emitAll d fps children l.path (.scaled own) info.animations
      let resolved ← emitAll d fps children l.path .absolute
        (info.resolved.map (withoutLead l.lead))
      return (c, below ++ transitions ++ animations ++ resolved)) [] (·.1 = c) := by
  refine Completes.bind (groupTransitions_of_emits hid fun cause hcause =>
    h cause (List.mem_append_left _ (List.mem_append_left _ hcause)))
    fun transitions s₁ hfirst _ => ?_
  refine Completes.bind (emitAll_of_emits fun x hx => ?_) fun animations s₂ hsecond _ => ?_
  · obtain ⟨out, hout⟩ :=
      h (.entry x) (List.mem_append_left _ (List.mem_append_right _ (List.mem_map_of_mem hx)))
    exact ⟨out, hout.mono hfirst.library⟩
  refine Completes.map (emitAll_of_emits fun x hx => ?_) fun _ _ => rfl
  obtain ⟨y, hy, rfl⟩ := List.mem_map.mp hx
  obtain ⟨out, hout⟩ := h (.resolved y) (List.mem_append_right _ (List.mem_map_of_mem hy))
  exact ⟨out, hout.mono (hfirst.trans hsecond).library⟩

end

section

variable {d : Disk} {fps : Number R} {root scope own : TimeScope R}
  {objects children way : List (Object R)} {s : State R}

/-- The scope, the level and the compiled group of a source are those of its group. -/
theorem Source.Emits.within {library : EffectLibrary R} {position : List Nat} {b : Base R}
    {cs : List (Object R)} {info : GroupInfo R} {e : Members R} {duration : Option Int}
    {c : Object R} {cause : Cause R} {out : List (Track R)}
    (hscope : TimeScope.along fps root way = .ok scope) (hown : scope.enter info fps = .ok own)
    (hchildren : absoluteAll fps (Level.along (way ++ [.group b cs info e])) own cs = .ok children)
    (hduration : durationFrames fps info.duration = .ok duration)
    (hc : absolute fps (Level.along way) scope (.group b cs info e) = .ok c)
    (h : Source.Emits d library fps root objects
      ⟨position, way ++ [.group b cs info e], cause⟩ out) :
    cause.EmitsWithin d library fps (Level.along (way ++ [.group b cs info e])) own duration c
      children out := by
  have halong : TimeScope.along fps root (way ++ [.group b cs info e]) = .ok own :=
    TimeScope.along_concat_eq_ok.mpr ⟨scope, hscope, hown⟩
  obtain ⟨own', level, hown', hlevel, h⟩ := h
  obtain rfl : own = own' := Except.ok.inj (halong.symm.trans hown')
  rw [opened_append_singleton] at hlevel
  obtain rfl : children = level := Except.ok.inj (hchildren.symm.trans hlevel)
  cases cause with
  | entry x => exact h
  | resolved x => exact h
  | enter x =>
    obtain ⟨around, o, outer, c', hway, houter, hc', h⟩ := h
    obtain ⟨rfl, hlast⟩ := List.append_inj' hway rfl
    obtain rfl := (List.cons.inj hlast).1
    obtain rfl : scope = outer := Except.ok.inj (hscope.symm.trans houter)
    obtain rfl : c = c' := Except.ok.inj (hc.symm.trans hc')
    exact h
  | leave x =>
    obtain ⟨around, o, outer, c', n, hway, houter, hc', hn, h⟩ := h
    obtain ⟨rfl, hlast⟩ := List.append_inj' hway rfl
    obtain rfl := (List.cons.inj hlast).1
    obtain rfl : scope = outer := Except.ok.inj (hscope.symm.trans houter)
    obtain rfl : c = c' := Except.ok.inj (hc.symm.trans hc')
    exact ⟨n, Except.ok.inj (hduration.symm.trans hn), h⟩

/-- A group is compiled if its children are and if its causes have tracks. -/
theorem qualify_group_of_emits (position : List Nat) {b : Base R} {cs : List (Object R)}
    {info : GroupInfo R} {e : Members R} {duration : Option Int} {taken : List String}
    (hscope : TimeScope.along fps root way = .ok scope) (hown : scope.enter info fps = .ok own)
    (hchildren : absoluteAll fps (Level.along (way ++ [.group b cs info e])) own cs = .ok children)
    (hduration : durationFrames fps info.duration = .ok duration)
    (hfree : s.Admits ((Level.along way).fullId b.id).toList)
    (hbelow : ∀ t, s.Proceeds d ((Level.along way).fullId b.id).toList t →
      Completes d t (qualifyAll d fps (Level.along (way ++ [.group b cs info e])).path
        (Level.along (way ++ [.group b cs info e])).lead own cs) taken (·.1 = children))
    (h : ∀ cause ∈ ownCauses b info, ∃ out, Source.Emits d s.library fps root objects
      ⟨position, way ++ [.group b cs info e], cause⟩ out) :
    Completes d s (qualify d fps (Level.along way).path (Level.along way).lead scope
      (.group b cs info e)) (((Level.along way).fullId b.id).toList ++ taken)
      (·.1 = .group { b with id := (Level.along way).fullId b.id } children
        (compiledInfo info own.start duration) e) := by
  have hc : absolute fps (Level.along way) scope (.group b cs info e) =
      .ok (.group { b with id := (Level.along way).fullId b.id } children
        (compiledInfo info own.start duration) e) := by
    rw [absolute_group_eq_ok, ← Level.along_concat]
    exact ⟨own, children, duration, hown, hchildren, hduration, rfl⟩
  rw [qualify_group_eq, ← List.append_nil taken]
  refine (claimPath_of_free hfree).bind fun path s₁ hclaim hpath => ?_
  subst hpath
  refine .lift_bind hown ?_
  rw [← Level.path_along_concat way b cs info e, ← Level.lead_along_concat way b cs info e]
  refine (hbelow s₁ hclaim).bind fun inner s₂ hinner hcompiled => ?_
  obtain ⟨compiled, below⟩ := inner
  subst hcompiled
  refine .lift_bind hduration (ownTracks_of_emits below rfl fun cause hcause => ?_)
  obtain ⟨out, hout⟩ := h cause hcause
  have hwithin := hout.within hscope hown hchildren hduration hc
  exact ⟨out, hwithin.mono (hclaim.trans hinner).library⟩

/-- Objects are compiled if the first one is, and the others behind it. -/
theorem qualifyAll_cons_of {parent lead : String} {o c : Object R} {rest others : List (Object R)}
    (hfirst : Completes d s (qualify d fps parent lead scope o)
      (c.id.toList ++ Address.ids c.children) (·.1 = c))
    (hrest : ∀ t, s.Proceeds d (c.id.toList ++ Address.ids c.children) t →
      Completes d t (qualifyAll d fps parent lead scope rest) (Address.ids others) (·.1 = others)) :
    Completes d s (qualifyAll d fps parent lead scope (o :: rest)) (Address.ids (c :: others))
      (·.1 = c :: others) := by
  rw [qualifyAll, Address.ids_cons]
  refine hfirst.bind fun first s₁ hkept hc => (hrest s₁ hkept).map fun more hothers => ?_
  rw [hc, hothers]

/-- A list of objects is compiled if it has its absolute form, whose paths are distinct and not in
use, and if its sources have tracks. -/
theorem qualifyAll_of_emits (position : List Nat) (i : Nat) {os compiled : List (Object R)}
    (hscope : TimeScope.along fps root way = .ok scope)
    (hcompiled : absoluteAll fps (Level.along way) scope os = .ok compiled)
    (hadmits : s.Admits (Address.ids compiled))
    (h : ∀ src ∈ sourcesFrom position way i os, ∃ out, src.Emits d s.library fps root objects out) :
    Completes d s (qualifyAll d fps (Level.along way).path (Level.along way).lead scope os)
      (Address.ids compiled) (·.1 = compiled) := by
  induction os using Object.forest generalizing way scope compiled position i s with
  | nil =>
    cases hcompiled
    exact .pure rfl
  | shape b sh e rest ih | reference b r e rest ih =>
    obtain ⟨c, others, hc, hothers, rfl⟩ := absoluteAll_cons_eq_ok.mp hcompiled
    cases hc
    rw [Address.ids_cons] at hadmits
    refine qualifyAll_cons_of ?_ fun t hkept => ?_
    · rw [qualify]
      refine (claimPath_of_free hadmits.of_append.of_append).bind fun path _ _ hpath => ?_
      rw [hpath]
      exact .pure rfl
    · refine ih position (i + 1) hscope hothers (hadmits.of_proceeds hkept) fun src hsrc => ?_
      obtain ⟨out, hout⟩ := h src (List.mem_append_right _ hsrc)
      exact ⟨out, hout.mono hkept.library⟩
  | group b cs info e rest ihChildren ihRest =>
    obtain ⟨c, others, hc, hothers, rfl⟩ := absoluteAll_cons_eq_ok.mp hcompiled
    obtain ⟨own, children, duration, hown, hchildren, hduration, rfl⟩ :=
      absolute_group_eq_ok.mp hc
    rw [← Level.along_concat] at hchildren
    rw [Address.ids_cons] at hadmits
    have halong : TimeScope.along fps root (way ++ [.group b cs info e]) = .ok own :=
      TimeScope.along_concat_eq_ok.mpr ⟨scope, hscope, hown⟩
    have hcauses : ∀ cause ∈ ownCauses b info, ∃ out, Source.Emits d s.library fps root objects
        ⟨position ++ [i], way ++ [.group b cs info e], cause⟩ out := fun cause hcause =>
      h _ (List.mem_append_left _ (List.mem_append_right _ (List.mem_map_of_mem hcause)))
    refine qualifyAll_cons_of ?_ fun t hkept => ?_
    · refine qualify_group_of_emits (position ++ [i]) hscope hown hchildren hduration
        hadmits.of_append.of_append (fun t hclaim => ?_) hcauses
      refine ihChildren (position ++ [i]) 0 halong hchildren
        (hadmits.of_append.of_proceeds hclaim) fun src hsrc => ?_
      obtain ⟨out, hout⟩ := h src (List.mem_append_left _ (List.mem_append_left _ hsrc))
      exact ⟨out, hout.mono hclaim.library⟩
    · refine ihRest position (i + 1) hscope hothers (hadmits.of_proceeds hkept) fun src hsrc => ?_
      obtain ⟨out, hout⟩ := h src (List.mem_append_right _ hsrc)
      exact ⟨out, hout.mono hkept.library⟩

/-- A tree is flattened if it has its absolute form with distinct paths and its sources have
tracks. -/
theorem flattenIn_of_emits {entries : List (Entry R)} {speed : Option (Number R)}
    {compiled : List (Object R)} {library : EffectLibrary R}
    (hcompiled : absoluteAll fps Level.root (TimeScope.root speed) objects = .ok compiled)
    (hnodup : (Address.ids compiled).Nodup)
    (h : ∀ src ∈ sourcesOfAll objects entries, ∃ out,
      src.Emits d library fps (TimeScope.root speed) objects out) :
    Completes d ⟨library, []⟩ (flattenIn d fps objects entries speed) (Address.ids compiled)
      (·.1 = compiled) := by
  have hroot : TimeScope.along fps (TimeScope.root speed) [] = .ok (TimeScope.root speed) := rfl
  have hall : Completes d ⟨library, []⟩
      (qualifyAll d fps "" "" (TimeScope.root speed) objects) (Address.ids compiled)
      (·.1 = compiled) :=
    qualifyAll_of_emits [] 0 hroot hcompiled ⟨hnodup, by simp⟩
      fun src hsrc => h src (List.mem_append_right _ hsrc)
  rw [← List.append_nil (Address.ids compiled)]
  refine hall.bind fun below s₁ hkept hbelow => ?_
  obtain ⟨children, tracks⟩ := below
  subst hbelow
  refine Completes.map (emitAll_of_emits fun e he => ?_) fun _ _ => rfl
  have hsrc : ⟨[], [], .entry e⟩ ∈ sourcesOfAll objects entries :=
    List.mem_append_left _ (List.mem_map_of_mem he)
  obtain ⟨out, own, level, hown, hlevel, hout⟩ := h _ hsrc
  obtain rfl : TimeScope.root speed = own := Except.ok.inj (hroot.symm.trans hown)
  obtain rfl : children = level := Except.ok.inj (hcompiled.symm.trans hlevel)
  exact ⟨out, EmitsEntry.mono hout hkept.library⟩

/-- Flattening succeeds exactly if the tree has its absolute form, in which no path occurs twice,
and everything that is compiled to tracks has them. -/
theorem flatten_yields_iff {entries : List (Entry R)} {speed : Option (Number R)}
    {compiled : List (Object R)} {library : EffectLibrary R} :
    (∃ tracks library', (flatten d fps objects entries speed).Yields library (compiled, tracks)
      library') ↔
      absoluteAll fps Level.root (TimeScope.root speed) objects = .ok compiled ∧
        (Address.ids compiled).Nodup ∧
        ∀ src ∈ sourcesOfAll objects entries, ∃ out,
          src.Emits d library fps (TimeScope.root speed) objects out := by
  constructor
  · intro h
    obtain ⟨tracks, library', h⟩ := h
    obtain ⟨hcompiled, hnodup, outs, -, hall⟩ := flatten_yields h
    refine ⟨hcompiled, hnodup, fun src hsrc => ?_⟩
    obtain ⟨out, -, hout⟩ := exists_related_of_mem hall.flip hsrc
    exact ⟨out, hout⟩
  · intro h
    obtain ⟨hcompiled, hnodup, hemits⟩ := h
    obtain ⟨⟨compiled', tracks⟩, s', hrun, -, rfl⟩ :=
      flattenIn_of_emits hcompiled hnodup hemits
    refine ⟨tracks, s'.library, ?_⟩
    rw [flatten, Run.yields_get_bind, hrun, Run.yields_set_bind]
    exact Run.yields_lift.mpr ⟨rfl, rfl⟩

end

end Storyboard.Flattening
