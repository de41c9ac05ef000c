import Storyboard.Proofs.Flattening.Emission

namespace Storyboard.Flattening

variable {R : Type} [Scalar R]

/-- What is compiled to tracks: an animation of the document or of a group, an animation of the file
that a group stands for, and the transitions of a group. -/
inductive Cause (R : Type) where
  | entry (e : Entry R)
  | resolved (e : Entry R)
  | enter (t : Transition R)
  | leave (t : Transition R)

/-- A cause of tracks with the way down to the group that declares it. -/
structure Source (R : Type) where
  position : List Nat
  way : List (Object R)
  cause : Cause R

/-- The transitions that a group with an id is compiled with. -/
def transitionCauses (b : Base R) (info : GroupInfo R) : List (Cause R) :=
  match info.transition, b.id with
  | some t, some _ => t.entry.toList.map .enter ++ t.leave.toList.map .leave
  | _, _ => []

/-- What a group itself declares. -/
def ownCauses (b : Base R) (info : GroupInfo R) : List (Cause R) :=
  transitionCauses b info ++ info.animations.map .entry ++ info.resolved.map .resolved

mutual

/-- The sources in an object at a position, the objects in `way` around it. -/
def sources (position : List Nat) (way : List (Object R)) : Object R → List (Source R)
  | .group b cs info e =>
    sourcesFrom position (way ++ [.group b cs info e]) 0 cs ++
      (ownCauses b info).map (⟨position, way ++ [.group b cs info e], ·⟩)
  | .shape .. => []
  | .reference .. => []

/-- The sources in objects that stand from a place in their list on. -/
def sourcesFrom (position : List Nat) (way : List (Object R)) : Nat → List (Object R) →
    List (Source R)
  | _, [] => []
  | i, o :: rest => sources (position ++ [i]) way o ++ sourcesFrom position way (i + 1) rest

end

/-- The sources of a document: its own animations and what its objects declare. -/
def sourcesOfAll (objects : List (Object R)) (entries : List (Entry R)) : List (Source R) :=
  entries.map (⟨[], [], .entry ·⟩) ++ sourcesFrom [] [] 0 objects

/-- The tracks of a transition of a compiled group. -/
def EmitsTransition (d : Disk) (library : EffectLibrary R) (fps : Number R) (group : Object R)
    (start : Int) (t : Transition R) (out : List (Track R)) : Prop :=
  ∃ path, group.id = some path ∧
    EmitsEffect d library fps ⟨path, t.effect, .number (.int start), t.duration, []⟩ group start
      .absolute out

/-- The tracks of a source, given the scope of the whole document and its objects. -/
def Source.Emits (d : Disk) (library : EffectLibrary R) (fps : Number R) (root : TimeScope R)
    (objects : List (Object R)) (src : Source R) (out : List (Track R)) : Prop :=
  ∃ own level, TimeScope.along fps root src.way = .ok own ∧
    absoluteAll fps (Level.along src.way) own (opened Object.children objects src.way) =
      .ok level ∧
    match src.cause with
    | .entry e => EmitsEntry d library fps level (Level.along src.way).path (.scaled own) e out
    | .resolved e => EmitsEntry d library fps level (Level.along src.way).path .absolute
        (withoutLead (Level.along src.way).lead e) out
    | .enter t => ∃ around o outer c, src.way = around ++ [o] ∧
        TimeScope.along fps root around = .ok outer ∧
        absolute fps (Level.along around) outer o = .ok c ∧
        EmitsTransition d library fps c own.start t out
    | .leave t => ∃ around o outer c n, src.way = around ++ [o] ∧
        TimeScope.along fps root around = .ok outer ∧
        absolute fps (Level.along around) outer o = .ok c ∧
        durationFrames fps o.groupInfo.duration = .ok (some n) ∧
        EmitsTransition d library fps c (own.start + n) t out

theorem EmitsTransition.mono {d : Disk} {k l : EffectLibrary R} {fps : Number R} {group : Object R}
    {start : Int} {t : Transition R} {out : List (Track R)}
    (h : EmitsTransition d k fps group start t out) (hk : k.Within d l) :
    EmitsTransition d l fps group start t out := by
  obtain ⟨path, hpath, h⟩ := h
  exact ⟨path, hpath, h.mono hk⟩

theorem Source.Emits.mono {d : Disk} {k l : EffectLibrary R} {fps : Number R} {root : TimeScope R}
    {objects : List (Object R)} {src : Source R} {out : List (Track R)}
    (h : src.Emits d k fps root objects out) (hk : k.Within d l) :
    src.Emits d l fps root objects out := by
  obtain ⟨own, level, hown, hlevel, h⟩ := h
  refine ⟨own, level, hown, hlevel, ?_⟩
  rcases src with ⟨position, way, e | e | t | t⟩
  · exact h.mono hk
  · exact h.mono hk
  · obtain ⟨around, o, outer, c, hw, hs, hc, h⟩ := h
    exact ⟨around, o, outer, c, hw, hs, hc, h.mono hk⟩
  · obtain ⟨around, o, outer, c, n, hw, hs, hc, hn, h⟩ := h
    exact ⟨around, o, outer, c, n, hw, hs, hc, hn, h.mono hk⟩

theorem EmitsEffect.unique {d : Disk} {library : EffectLibrary R} {fps : Number R}
    {use : EffectUse R} {target : Object R} {start : Int} {frames : FrameMap R}
    {out out' : List (Track R)} (h : EmitsEffect d library fps use target start frames out)
    (h' : EmitsEffect d library fps use target start frames out') : out = out' := by
  obtain ⟨effect, tracks, hgives, htracks, hall⟩ := h
  obtain ⟨effect', tracks', hgives', htracks', hall'⟩ := h'
  obtain rfl := hgives.unique hgives'
  obtain rfl := Except.ok.inj (htracks.symm.trans htracks')
  refine forall₂_unique ?_ hall hall'
  intro t u u' hu hu'
  obtain ⟨keyframes, hplaced, rfl⟩ := hu
  obtain ⟨keyframes', hplaced', rfl⟩ := hu'
  rw [Except.ok.inj (hplaced.symm.trans hplaced')]

theorem EmitsEntry.unique {d : Disk} {library : EffectLibrary R} {fps : Number R}
    {objects : List (Object R)} {path : String} {frames : FrameMap R} {entry : Entry R}
    {out out' : List (Track R)} (h : EmitsEntry d library fps objects path frames entry out)
    (h' : EmitsEntry d library fps objects path frames entry out') : out = out' := by
  obtain ⟨target, htarget, h⟩ := h
  obtain ⟨target', htarget', h'⟩ := h'
  obtain rfl := Except.ok.inj (htarget.symm.trans htarget')
  cases entry with
  | effect use =>
    obtain ⟨start, hstart, h⟩ := h
    obtain ⟨start', hstart', h'⟩ := h'
    obtain rfl := Except.ok.inj (hstart.symm.trans hstart')
    exact h.unique h'
  | track t =>
    obtain ⟨keyframes, hplaced, rfl⟩ := h
    obtain ⟨keyframes', hplaced', rfl⟩ := h'
    rw [Except.ok.inj (hplaced.symm.trans hplaced')]

theorem EmitsTransition.unique {d : Disk} {library : EffectLibrary R} {fps : Number R}
    {group : Object R} {start : Int} {t : Transition R} {out out' : List (Track R)}
    (h : EmitsTransition d library fps group start t out)
    (h' : EmitsTransition d library fps group start t out') : out = out' := by
  obtain ⟨path, hpath, h⟩ := h
  obtain ⟨path', hpath', h'⟩ := h'
  obtain rfl := Option.some.inj (hpath.symm.trans hpath')
  exact h.unique h'

/-- A source is compiled to tracks in one way only. -/
theorem Source.Emits.unique {d : Disk} {library : EffectLibrary R} {fps : Number R}
    {root : TimeScope R} {objects : List (Object R)} {src : Source R} {out out' : List (Track R)}
    (h : src.Emits d library fps root objects out)
    (h' : src.Emits d library fps root objects out') : out = out' := by
  obtain ⟨own, level, hown, hlevel, h⟩ := h
  obtain ⟨own', level', hown', hlevel', h'⟩ := h'
  obtain rfl := Except.ok.inj (hown.symm.trans hown')
  obtain rfl := Except.ok.inj (hlevel.symm.trans hlevel')
  -- A way down ends in one object, which is compiled in one scope.
  have hgroup {around around' : List (Object R)} {o o' c c' : Object R} {outer outer' : TimeScope R}
      (hw : around ++ [o] = around' ++ [o']) (houter : TimeScope.along fps root around = .ok outer)
      (houter' : TimeScope.along fps root around' = .ok outer')
      (hc : absolute fps (Level.along around) outer o = .ok c)
      (hc' : absolute fps (Level.along around') outer' o' = .ok c') : c = c' ∧ o = o' := by
    obtain ⟨rfl, hlast⟩ := List.append_inj' hw rfl
    obtain rfl := (List.cons.inj hlast).1
    obtain rfl := Except.ok.inj (houter.symm.trans houter')
    exact ⟨Except.ok.inj (hc.symm.trans hc'), rfl⟩
  rcases src with ⟨position, way, e | e | t | t⟩
  · exact EmitsEntry.unique h h'
  · exact EmitsEntry.unique h h'
  · obtain ⟨around, o, outer, c, hw, houter, hc, h⟩ := h
    obtain ⟨around', o', outer', c', hw', houter', hc', h'⟩ := h'
    obtain ⟨rfl, -⟩ := hgroup (hw.symm.trans hw') houter houter' hc hc'
    exact h.unique h'
  · obtain ⟨around, o, outer, c, n, hw, houter, hc, hn, h⟩ := h
    obtain ⟨around', o', outer', c', n', hw', houter', hc', hn', h'⟩ := h'
    obtain ⟨rfl, rfl⟩ := hgroup (hw.symm.trans hw') houter houter' hc hc'
    obtain rfl := Option.some.inj (Except.ok.inj (hn.symm.trans hn'))
    exact h.unique h'

/-- Tracks that are the outputs of sources, one after another. -/
def EmittedBy (d : Disk) (library : EffectLibrary R) (fps : Number R) (root : TimeScope R)
    (objects : List (Object R)) (srcs : List (Source R)) (tracks : List (Track R)) : Prop :=
  ∃ outs, tracks = outs.flatten ∧
    List.Forall₂ (Source.Emits d library fps root objects) srcs outs

namespace EmittedBy

variable {d : Disk} {library : EffectLibrary R} {fps : Number R} {root : TimeScope R}
  {objects : List (Object R)}

theorem nil : EmittedBy d library fps root objects [] [] := ⟨[], rfl, .nil⟩

theorem append {srcs more : List (Source R)} {tracks others : List (Track R)}
    (h : EmittedBy d library fps root objects srcs tracks)
    (h' : EmittedBy d library fps root objects more others) :
    EmittedBy d library fps root objects (srcs ++ more) (tracks ++ others) := by
  obtain ⟨outs, rfl, hall⟩ := h
  obtain ⟨outs', rfl, hall'⟩ := h'
  exact ⟨outs ++ outs', by simp, List.rel_append hall hall'⟩

theorem mono {k : EffectLibrary R} {srcs : List (Source R)} {tracks : List (Track R)}
    (h : EmittedBy d k fps root objects srcs tracks) (hk : k.Within d library) :
    EmittedBy d library fps root objects srcs tracks := by
  obtain ⟨outs, rfl, hall⟩ := h
  exact ⟨outs, rfl, hall.imp fun _ _ hx => hx.mono hk⟩

theorem of_append {srcs more : List (Source R)} {tracks : List (Track R)}
    (h : EmittedBy d library fps root objects (srcs ++ more) tracks) :
    ∃ first rest, tracks = first ++ rest ∧ EmittedBy d library fps root objects srcs first ∧
      EmittedBy d library fps root objects more rest := by
  obtain ⟨outs, rfl, hall⟩ := h
  obtain ⟨first, rest, rfl, hfirst, hrest⟩ := forall₂_append_left hall
  exact ⟨first.flatten, rest.flatten, List.flatten_append, ⟨first, rfl, hfirst⟩, ⟨rest, rfl, hrest⟩⟩

/-- The tracks of sources that stand together stand together among all. -/
theorem exists_part {srcs part : List (Source R)} {tracks : List (Track R)}
    (h : EmittedBy d library fps root objects srcs tracks) (hpart : part <:+: srcs) :
    ∃ out, out <:+: tracks ∧ EmittedBy d library fps root objects part out := by
  obtain ⟨before, behind, rfl⟩ := hpart
  obtain ⟨front, last, rfl, hfront, -⟩ := h.of_append
  obtain ⟨first, middle, rfl, -, hmiddle⟩ := hfront.of_append
  exact ⟨middle, ⟨first, last, rfl⟩, hmiddle⟩

theorem exists_source {srcs : List (Source R)} {tracks : List (Track R)} {t : Track R}
    (h : EmittedBy d library fps root objects srcs tracks) (ht : t ∈ tracks) :
    ∃ src ∈ srcs, ∃ out, t ∈ out ∧ src.Emits d library fps root objects out := by
  obtain ⟨outs, rfl, hall⟩ := h
  obtain ⟨out, hout, ht⟩ := List.mem_flatten.mp ht
  obtain ⟨src, hsrc, hemits⟩ := exists_related_of_mem hall hout
  exact ⟨src, hsrc, out, ht, hemits⟩

end EmittedBy

omit [Scalar R] in
theorem sources_eq (position : List Nat) (way : List (Object R)) (o : Object R) :
    sources position way o = sourcesFrom position (way ++ [o]) 0 o.children ++
      (ownCauses o.base o.groupInfo).map (⟨position, way ++ [o], ·⟩) := by
  cases o with
  | group b cs info e => rw [sources]; rfl
  | shape b s e => rw [sources]; rfl
  | reference b r e => rw [sources]; rfl

omit [Scalar R] in
/-- The sources in a list of objects are declared by the objects to which ways lead down. -/
theorem sourcesFrom_spec {position : List Nat} {way os : List (Object R)} {i : Nat}
    {src : Source R} (h : src ∈ sourcesFrom position way i os) :
    ∃ j q front o, Object.way os (j :: q) = some (front ++ [o]) ∧
      src.position = position ++ (i + j) :: q ∧ src.way = way ++ (front ++ [o]) ∧
      src.cause ∈ ownCauses o.base o.groupInfo := by
  induction os using Object.descent generalizing position way i with
  | nil => simp [sourcesFrom] at h
  | cons x rest ihChildren ihRest =>
    rw [sourcesFrom, sources_eq, List.mem_append, List.mem_append, List.mem_map] at h
    rcases h with (h | ⟨cause, hc, rfl⟩) | h
    · obtain ⟨j, q, front, o, hw, hp, hs, hc⟩ := ihChildren h
      refine ⟨0, j :: q, x :: front, o, ?_, ?_, ?_, hc⟩
      · exact (wayDown_cons_eq_some _).mpr ⟨x, _, rfl, hw, rfl⟩
      · rw [hp, Nat.zero_add, List.append_assoc]
        rfl
      · rw [hs, List.append_assoc]
        rfl
    · exact ⟨0, [], [], x, rfl, rfl, rfl, hc⟩
    · obtain ⟨j, q, front, o, hw, hp, hs, hc⟩ := ihRest h
      obtain ⟨y, tail, hy, htail, he⟩ := (wayDown_cons_eq_some _).mp hw
      refine ⟨j + 1, q, front, o, ?_, ?_, hs, hc⟩
      · exact (wayDown_cons_eq_some _).mpr ⟨y, tail, hy, htail, he⟩
      · rw [hp, Nat.add_assoc, Nat.add_comm 1 j]

omit [Scalar R] in
/-- What an object declares stands together among the sources in a list of objects. -/
theorem infix_sourcesFrom (position : List Nat) (way : List (Object R)) (i : Nat)
    {os front : List (Object R)} {j : Nat} {q : List Nat} {o : Object R}
    (hw : Object.way os (j :: q) = some (front ++ [o])) :
    (ownCauses o.base o.groupInfo).map (⟨position ++ (i + j) :: q, way ++ (front ++ [o]), ·⟩) <:+:
      sourcesFrom position way i os := by
  induction os using Object.descent generalizing position way front i j q with
  | nil => simp [Object.way, wayDown] at hw
  | cons x rest ihChildren ihRest =>
    rw [sourcesFrom, sources_eq]
    cases j with
    | succ j =>
      have := ihRest position way (i + 1) (j := j) hw
      rw [Nat.add_assoc, Nat.add_comm 1 j] at this
      exact this.trans (List.suffix_append _ _).isInfix
    | zero =>
      refine List.IsInfix.trans ?_ (List.prefix_append _ _).isInfix
      rcases (wayDown_cons_eq_append _).mp hw with ⟨rfl, rfl, hy⟩ | ⟨y, front', rfl, hy, htail⟩
      · obtain rfl : x = o := by simpa using hy
        exact (List.suffix_append _ _).isInfix
      · obtain rfl : x = y := by simpa using hy
        cases q with
        | nil => simp at htail
        | cons k q =>
          have := ihChildren (position ++ [i]) (way ++ [x]) 0 htail
          rw [Nat.zero_add, List.append_assoc, List.append_assoc] at this
          exact this.trans (List.prefix_append _ _).isInfix

/-- What is declared where a way down ends: by the last object, or by the document. -/
def causesAt (entries : List (Entry R)) (way : List (Object R)) : List (Cause R) :=
  match way.getLast? with
  | some o => ownCauses o.base o.groupInfo
  | none => entries.map .entry

omit [Scalar R] in
@[simp] theorem causesAt_append_singleton (entries : List (Entry R)) (front : List (Object R))
    (o : Object R) : causesAt entries (front ++ [o]) = ownCauses o.base o.groupInfo := by
  simp [causesAt]

omit [Scalar R] in
/-- Every source of a document is declared at the end of its way down. -/
theorem sourcesOfAll_spec {objects : List (Object R)} {entries : List (Entry R)} {src : Source R}
    (h : src ∈ sourcesOfAll objects entries) :
    Object.way objects src.position = some src.way ∧ src.cause ∈ causesAt entries src.way := by
  rw [sourcesOfAll, List.mem_append, List.mem_map] at h
  rcases h with ⟨e, he, rfl⟩ | h
  · exact ⟨rfl, List.mem_map.mpr ⟨e, he, rfl⟩⟩
  · obtain ⟨j, q, front, o, hw, hp, hs, hc⟩ := sourcesFrom_spec h
    rw [hp, hs, List.nil_append, Nat.zero_add, List.nil_append, causesAt_append_singleton]
    exact ⟨hw, hc⟩

omit [Scalar R] in
/-- What is declared at the end of a way down stands together among the sources. -/
theorem infix_sourcesOfAll {objects way : List (Object R)} {entries : List (Entry R)}
    {p : List Nat} (hw : Object.way objects p = some way) :
    (causesAt entries way).map (⟨p, way, ·⟩) <:+: sourcesOfAll objects entries := by
  rw [sourcesOfAll]
  cases p with
  | nil =>
    obtain rfl : way = [] := by simpa [Object.way] using hw.symm
    have : (causesAt entries []).map (Source.mk [] []) =
        entries.map fun e => ⟨[], [], .entry e⟩ := by
      simp [causesAt, List.map_map, Function.comp_def]
    rw [this]
    exact (List.prefix_append _ _).isInfix
  | cons j q =>
    obtain ⟨front, o, rfl⟩ := wayDown_cons_last _ hw
    rw [causesAt_append_singleton]
    have := infix_sourcesFrom [] [] 0 hw
    rw [Nat.zero_add, List.nil_append, List.nil_append] at this
    exact this.trans (List.suffix_append _ _).isInfix

end Storyboard.Flattening
