import Storyboard.Proofs.Flattening.Qualification
import Storyboard.Proofs.Keyframes
import Storyboard.Proofs.Unreadable

namespace Storyboard

open Outcome (Only)

variable {R : Type} [Scalar R]

namespace Entry

/-- The effect that an animation uses, if it uses one. -/
def effect? : Entry R → Option String
  | track _ => none
  | effect use => some use.effect

/-- An animation with a keyframe, of its own or of its effect. -/
def HasKeyframe (d : Disk) (library : EffectLibrary R) : Entry R → Prop
  | track t => t.keyframes ≠ []
  | effect use => ∃ e, library.Gives d use.effect e ∧ ∃ p ∈ e.properties, p.2 ≠ []

theorem HasKeyframe.mono {d : Disk} {k l : EffectLibrary R} {e : Entry R}
    (h : e.HasKeyframe d k) (hk : k.Within d l) : e.HasKeyframe d l := by
  cases e with
  | track t => exact h
  | effect use =>
    obtain ⟨e, hgives, hproperties⟩ := h
    exact ⟨e, hk _ _ hgives, hproperties⟩

end Entry

namespace Flattening

variable {d : Disk} {fps : Number R} {root scope own : TimeScope R} {f : Fault}

/-- Frames of a group that stands still. -/
def FrameMap.Still : FrameMap R → Prop
  | absolute => False
  | scaled s => s.speed.isZero = true

theorem FrameMap.only_apply (frames : FrameMap R) (n : Int) :
    Only (fun f => f.Mild R ∨ f = .numeric .zeroDivision ∧ frames.Still) (frames.apply n) := by
  cases frames with
  | absolute => exact .ok n
  | scaled s => exact TimeScope.only_toAbsolute s n

theorem mild_resolveTarget (target : String) (objects : List (Object R)) (path : String) :
    Outcome.Mild R (resolveTarget target objects path) := by
  rw [resolveTarget]
  split
  · exact .ok _
  · split
    · exact .ok _
    · exact Outcome.mild_error rfl rfl
    · exact Outcome.mild_error rfl rfl

theorem mild_durationFrames (fps : Number R) (q : Option (Quantity R)) :
    Outcome.Mild R (durationFrames fps q) := by
  cases q with
  | none => exact .ok none
  | some q => exact .map _ (Time.mild_frame fps q)

/-- The effect that a cause of tracks uses, if it uses one. -/
def Cause.effect? : Cause R → Option String
  | entry e | resolved e => e.effect?
  | enter t | leave t => some t.effect

/-- An animation whose effect is hidden, or one with a keyframe in a group that stands still. -/
inductive StrayEntry (d : Disk) (library : EffectLibrary R) (frames : FrameMap R) (e : Entry R) :
    Fault → Prop
  | hidden {name f} (hname : e.effect? = some name) (h : library.Hides d name f) :
      StrayEntry d library frames e f
  | still (hkeyframe : e.HasKeyframe d library) (h : frames.Still) :
      StrayEntry d library frames e (.numeric .zeroDivision)

theorem StrayEntry.of_agrees {k l : EffectLibrary R} {frames : FrameMap R} {e : Entry R}
    (h : StrayEntry d k frames e f) (hk : l.Agrees d k) : StrayEntry d l frames e f := by
  cases h with
  | hidden hname h => exact .hidden hname (h.of_agrees hk)
  | still hkeyframe h => exact .still (hkeyframe.mono hk.within) h

/-- Flattening goes on with a library that gives the same. -/
def State.Agrees (d : Disk) (s s' : State R) : Prop := s.library.Agrees d s'.library

theorem State.Agrees.trans {s t u : State R} (h : s.Agrees d t) (h' : t.Agrees d u) :
    s.Agrees d u := EffectLibrary.Agrees.trans h h'

theorem leaves_lift {α : Type} (o : Outcome α) :
    (Run.lift o : Run (State R) α).Leaves (State.Agrees d) :=
  .lift (fun s => .refl d s.library) o

theorem leaves_bind {α β : Type} {r : Run (State R) α} {g : α → Run (State R) β}
    (hr : r.Leaves (State.Agrees d)) (hg : ∀ a, (g a).Leaves (State.Agrees d)) :
    (r >>= g).Leaves (State.Agrees d) :=
  .bind (fun _ _ _ h h' => h.trans h') hr hg

theorem leaves_effectTracks (use : EffectUse R) (target : Object R) (start : Int)
    (frames : FrameMap R) :
    (effectTracks d fps use target start frames).Leaves (State.Agrees d) := by
  refine leaves_bind ?_ fun tracks => leaves_lift _
  intro s tracks s' h
  obtain ⟨library, htracks, rfl⟩ := withLibrary_yields.mp h
  obtain ⟨effect, l, hget, htracks⟩ := Run.yields_bind.mp htracks
  obtain ⟨-, rfl⟩ := Run.yields_lift.mp htracks
  exact EffectLibrary.get_agrees hget

theorem leaves_emit (objects : List (Object R)) (path : String) (frames : FrameMap R)
    (e : Entry R) : (emit d fps objects path frames e).Leaves (State.Agrees d) := by
  refine leaves_bind (leaves_lift _) fun target => ?_
  cases e with
  | effect use => exact leaves_bind (leaves_lift _) fun start => leaves_effectTracks _ _ _ _
  | track t => exact leaves_bind (leaves_lift _) fun keyframes => leaves_lift (.ok _)

theorem leaves_emitAll (objects : List (Object R)) (path : String) (frames : FrameMap R)
    (entries : List (Entry R)) :
    (emitAll d fps objects path frames entries).Leaves (State.Agrees d) := by
  induction entries with
  | nil => exact leaves_lift (.ok [])
  | cons e rest ih =>
    exact leaves_bind (leaves_emit objects path frames e) fun first =>
      leaves_bind ih fun others => leaves_lift (.ok _)

theorem leaves_enterTracks (group : Object R) (path : String) (start : Int)
    (t : Option (Transition R)) :
    (enterTracks d fps group path start t).Leaves (State.Agrees d) := by
  cases t with
  | none => exact leaves_lift (.ok [])
  | some t => exact leaves_effectTracks _ _ _ _

theorem leaves_leaveTracks (group : Object R) (path : String) (start : Int) (duration : Option Int)
    (t : Option (Transition R)) :
    (leaveTracks d fps group path start duration t).Leaves (State.Agrees d) := by
  cases t with
  | none =>
    rw [leaveTracks]
    exact leaves_lift (.ok [])
  | some t =>
    cases duration with
    | none => exact leaves_lift (.error _)
    | some n => exact leaves_effectTracks _ _ _ _

theorem leaves_groupTransitions (group : Object R) (start : Int) (duration : Option Int)
    (t : Option (GroupTransition R)) (path : Option String) :
    (groupTransitions d fps group start duration t path).Leaves (State.Agrees d) := by
  cases t with
  | none => exact leaves_lift (.ok [])
  | some t =>
    cases path with
    | none => exact leaves_lift (.ok [])
    | some path =>
      rw [groupTransitions, emitTransitions_eq]
      exact leaves_bind (leaves_enterTracks _ _ _ _) fun entry =>
        leaves_bind (leaves_leaveTracks _ _ _ _ _) fun leave => leaves_lift (.ok _)

theorem leaves_claimPath (parent lead : String) (id : Option String) :
    (claimPath parent lead id : Run (State R) _).Leaves (State.Agrees d) := by
  intro s path s' h
  obtain ⟨-, hlibrary, -⟩ := claimPath_yields (l := ⟨parent, lead⟩) h
  rw [State.Agrees, hlibrary]
  exact .refl d _

theorem leaves_qualifyAll (l : Level) (scope : TimeScope R) (os : List (Object R)) :
    (qualifyAll d fps l.path l.lead scope os).Leaves (State.Agrees d) := by
  have hcons {l : Level} {scope : TimeScope R} {o : Object R} {rest : List (Object R)}
      (ho : (qualify d fps l.path l.lead scope o).Leaves (State.Agrees d))
      (hrest : (qualifyAll d fps l.path l.lead scope rest).Leaves (State.Agrees d)) :
      (qualifyAll d fps l.path l.lead scope (o :: rest)).Leaves (State.Agrees d) := by
    rw [qualifyAll]
    exact leaves_bind ho fun first => leaves_bind hrest fun others => leaves_lift (.ok _)
  induction os using Object.forest generalizing l scope with
  | nil => exact leaves_lift (.ok _)
  | shape b sh e rest ih | reference b r e rest ih =>
    refine hcons ?_ (ih l scope)
    rw [qualify]
    exact leaves_bind (leaves_claimPath _ _ _) fun path => leaves_lift (.ok _)
  | group b cs info e rest ihChildren ihRest =>
    refine hcons ?_ (ihRest l scope)
    rw [qualify_group_eq]
    refine leaves_bind (leaves_claimPath _ _ _) fun path => ?_
    refine leaves_bind (leaves_lift _) fun own => ?_
    refine leaves_bind (ihChildren ⟨innerPath l.path path, innerNamespace l.lead b info⟩ own)
      fun inner => ?_
    refine leaves_bind (leaves_lift _) fun duration => ?_
    refine leaves_bind (leaves_groupTransitions _ _ _ _ _) fun transitions => ?_
    refine leaves_bind (leaves_emitAll _ _ _ _) fun animations => ?_
    exact leaves_bind (leaves_emitAll _ _ _ _) fun resolved => leaves_lift (.ok _)

theorem qualifyAll_singleton_yields {parent lead : String} {o c : Object R}
    {below : List (Track R)} {s s' : State R}
    (h : (qualify d fps parent lead scope o).Yields s (c, below) s') :
    (qualifyAll d fps parent lead scope [o]).Yields s ([c], below ++ []) s' := by
  rw [qualifyAll]
  refine Run.yields_bind.mpr ⟨(c, below), s', h, ?_⟩
  exact Run.yields_bind.mpr ⟨([], []), s', Run.yields_pure.mpr ⟨rfl, rfl⟩,
    Run.yields_pure.mpr ⟨rfl, rfl⟩⟩

theorem leaves_qualify (l : Level) (scope : TimeScope R) (o : Object R) :
    (qualify d fps l.path l.lead scope o).Leaves (State.Agrees d) :=
  fun s _ s' h => leaves_qualifyAll l scope [o] s _ s' (qualifyAll_singleton_yields h)

/-- The tracks of an effect are refused, in a way that is not mild, if its definition is hidden or
if they stand still. -/
theorem effectTracks_fails {use : EffectUse R} {target : Object R} {start : Int}
    {frames : FrameMap R} {s : State R} (hf : ¬ f.Mild R)
    (h : (effectTracks d fps use target start frames).Fails s f) :
    StrayEntry d s.library frames (.effect use) f := by
  rcases Run.fails_bind.mp h with h | ⟨tracks, s₁, htracks, h⟩
  · rw [withLibrary, Run.fails_get_bind, Run.fails_set_bind] at h
    have hrun : (use.tracks d fps (some target.staticProps) start).Fails s.library f := h
    rcases Run.fails_bind.mp hrun with hget | ⟨effect, l, -, hof⟩
    · exact .hidden rfl ⟨hget, EffectLibrary.get_fails hf hget⟩
    · exact (hf (EffectUse.mild_tracksOf _ _ _ _ _ f hof)).elim
  · obtain ⟨library, hr, rfl⟩ := withLibrary_yields.mp htracks
    obtain ⟨effect, l, hget, hlift⟩ := Run.yields_bind.mp hr
    obtain ⟨hof, -⟩ := Run.yields_lift.mp hlift
    obtain ⟨duration, -, hproperties⟩ := EffectUse.tracksOf_eq_ok hof
    have honly : Only (fun f => f.Mild R ∨ f = .numeric .zeroDivision ∧ frames.Still ∧
        (Entry.effect use).HasKeyframe d s.library) (tracks.mapM fun t => do
          let keyframes ← Track.placed (effectFrame frames) t.keyframes
          return { t with keyframes := keyframes }) := by
      refine .mapM fun t ht => Only.bind (Track.only_placed fun k hk => ?_) fun _ _ => .pure _
      obtain ⟨p, hp, -, -, hshows⟩ := exists_related_of_mem hproperties ht
      obtain ⟨part, hpart, context, value, moment, -, -, rfl⟩ := exists_related_of_mem hshows hk
      have hkeyframe : (Entry.effect use).HasKeyframe d s.library :=
        ⟨effect, (EffectLibrary.get_yields hget).1, p, hp, List.ne_nil_of_mem hpart⟩
      rw [effectFrame_int]
      exact (frames.only_apply moment).mono fun g hg =>
        hg.imp_right fun h => ⟨h.1, h.2, hkeyframe⟩
    rcases honly f h with hmild | ⟨rfl, hstill, hkeyframe⟩
    · exact (hf hmild).elim
    · exact .still hkeyframe hstill

theorem emit_fails {objects : List (Object R)} {path : String} {frames : FrameMap R} {e : Entry R}
    {s : State R} (hf : ¬ f.Mild R) (h : (emit d fps objects path frames e).Fails s f) :
    StrayEntry d s.library frames e f := by
  rcases Run.fails_lift_bind.mp h with h | ⟨target, -, h⟩
  · exact (hf (mild_resolveTarget _ _ _ f h)).elim
  cases e with
  | effect use =>
    rcases Run.fails_lift_bind.mp h with h | ⟨start, -, h⟩
    · exact (hf (Time.mild_frame fps _ f h)).elim
    · cases effectTracks_fails hf h with
      | hidden hname hhides => exact .hidden hname hhides
      | still hkeyframe hstill => exact .still hkeyframe hstill
  | track t =>
    rcases Run.fails_lift_bind.mp h with h | ⟨keyframes, -, h⟩
    · have honly : Only (fun f => f.Mild R ∨ f = .numeric .zeroDivision ∧ frames.Still ∧
          (Entry.track t).HasKeyframe d s.library)
          (Track.placed (entryFrame fps frames) t.keyframes) := by
        refine Track.only_placed fun k hk => ?_
        refine ((Time.mild_frame fps k.start).mono fun _ => .inl).bind fun n _ => ?_
        exact (frames.only_apply n).mono fun g hg =>
          hg.imp_right fun h => ⟨h.1, h.2, List.ne_nil_of_mem hk⟩
      rcases honly f h with hmild | ⟨rfl, hstill, hkeyframe⟩
      · exact (hf hmild).elim
      · exact .still hkeyframe hstill
    · exact (Run.fails_pure.mp h).elim

theorem emitAll_fails {objects : List (Object R)} {path : String} {frames : FrameMap R}
    {entries : List (Entry R)} {s : State R} (hf : ¬ f.Mild R)
    (h : (emitAll d fps objects path frames entries).Fails s f) :
    ∃ e ∈ entries, StrayEntry d s.library frames e f := by
  induction entries generalizing s with
  | nil => exact (Run.fails_pure.mp h).elim
  | cons e rest ih =>
    rcases Run.fails_bind.mp h with h | ⟨first, s₁, hfirst, h⟩
    · exact ⟨e, List.mem_cons_self, emit_fails hf h⟩
    rcases Run.fails_bind.mp h with h | ⟨others, s₂, -, h⟩
    · obtain ⟨e', he', hstray⟩ := ih h
      have hsame := leaves_emit objects path frames e s first s₁ hfirst
      exact ⟨e', List.mem_cons_of_mem _ he', hstray.of_agrees hsame⟩
    · exact (Run.fails_pure.mp h).elim

/-- A source whose effect is hidden, or one with a keyframe of the document, or of a group, that
stands still. -/
inductive Source.Strays (d : Disk) (library : EffectLibrary R) (fps : Number R)
    (root : TimeScope R) (src : Source R) : Fault → Prop
  | hidden {name f} (hname : src.cause.effect? = some name) (h : library.Hides d name f) :
      Strays d library fps root src f
  | still {e own} (hcause : src.cause = .entry e) (hkeyframe : e.HasKeyframe d library)
      (hown : TimeScope.along fps root src.way = .ok own) (hzero : own.speed.isZero = true) :
      Strays d library fps root src (.numeric .zeroDivision)

theorem Source.Strays.of_agrees {k l : EffectLibrary R} {src : Source R}
    (h : src.Strays d k fps root f) (hk : l.Agrees d k) : src.Strays d l fps root f := by
  cases h with
  | hidden hname h => exact .hidden hname (h.of_agrees hk)
  | still hcause hkeyframe hown hzero => exact .still hcause (hkeyframe.mono hk.within) hown hzero

theorem StrayEntry.entry {library : EffectLibrary R} {position : List Nat}
    {way : List (Object R)} {e : Entry R} (hown : TimeScope.along fps root way = .ok own)
    (h : StrayEntry d library (.scaled own) e f) :
    Source.Strays d library fps root ⟨position, way, .entry e⟩ f := by
  cases h with
  | hidden hname h => exact .hidden hname h
  | still hkeyframe h => exact .still rfl hkeyframe hown h

theorem StrayEntry.resolved {library : EffectLibrary R} {position : List Nat}
    {way : List (Object R)} {lead : String} {e : Entry R}
    (h : StrayEntry d library .absolute (withoutLead lead e) f) :
    Source.Strays d library fps root ⟨position, way, .resolved e⟩ f := by
  cases h with
  | hidden hname h => exact .hidden (by cases e <;> exact hname) h
  | still hkeyframe h => exact h.elim

/-- A transition is in absolute frames, so only its effect can be hidden. -/
theorem emitTransition_fails {group : Object R} {path : String} {start : Int} {t : Transition R}
    {s : State R} (hf : ¬ f.Mild R) (h : (emitTransition d fps group path start t).Fails s f) :
    s.library.Hides d t.effect f := by
  cases effectTracks_fails hf h with
  | hidden hname hhides =>
    cases hname
    exact hhides
  | still hkeyframe hstill => exact hstill.elim

theorem enterTracks_fails {group : Object R} {path : String} {start : Int}
    {t : Option (Transition R)} {s : State R} (hf : ¬ f.Mild R)
    (h : (enterTracks d fps group path start t).Fails s f) :
    ∃ e, t = some e ∧ s.library.Hides d e.effect f := by
  cases t with
  | none => exact (Run.fails_pure.mp h).elim
  | some e => exact ⟨e, rfl, emitTransition_fails hf h⟩

theorem leaveTracks_fails {group : Object R} {path : String} {start : Int} {duration : Option Int}
    {t : Option (Transition R)} {s : State R} (hf : ¬ f.Mild R)
    (h : (leaveTracks d fps group path start duration t).Fails s f) :
    ∃ l, t = some l ∧ s.library.Hides d l.effect f := by
  cases t with
  | none =>
    rw [leaveTracks] at h
    exact (Run.fails_pure.mp h).elim
  | some l =>
    cases duration with
    | none =>
      obtain rfl := Run.fails_throw.mp h
      exact (hf ⟨rfl, .inl rfl⟩).elim
    | some n => exact ⟨l, rfl, emitTransition_fails hf h⟩

theorem groupTransitions_fails {b : Base R} {info : GroupInfo R} {group : Object R} {start : Int}
    {duration : Option Int} {path : Option String} {s : State R} (hf : ¬ f.Mild R)
    (hpath : path.isSome → b.id.isSome)
    (h : (groupTransitions d fps group start duration info.transition path).Fails s f) :
    ∃ cause ∈ transitionCauses b info, ∃ name, cause.effect? = some name ∧
      s.library.Hides d name f := by
  cases ht : info.transition with
  | none =>
    rw [ht] at h
    exact (Run.fails_pure.mp h).elim
  | some t =>
    cases path with
    | none =>
      rw [ht] at h
      exact (Run.fails_pure.mp h).elim
    | some path =>
      obtain ⟨raw, hraw⟩ := Option.isSome_iff_exists.mp (hpath rfl)
      have hcauses : transitionCauses b info =
          t.entry.toList.map Cause.enter ++ t.leave.toList.map .leave := by
        rw [transitionCauses, ht, hraw]
      rw [hcauses]
      rw [ht, groupTransitions, emitTransitions_eq] at h
      rcases Run.fails_bind.mp h with h | ⟨entry, s₁, hentry, h⟩
      · obtain ⟨e, he, hhides⟩ := enterTracks_fails hf h
        exact ⟨.enter e, by simp [he], e.effect, rfl, hhides⟩
      rcases Run.fails_bind.mp h with h | ⟨leave, s₂, -, h⟩
      · obtain ⟨l, hl, hhides⟩ := leaveTracks_fails hf h
        exact ⟨.leave l, by simp [hl], l.effect, rfl,
          hhides.of_agrees (leaves_enterTracks _ _ _ _ s entry s₁ hentry)⟩
      · exact (Run.fails_pure.mp h).elim

/-- A group is refused for its path, for its children, or for a source that it declares. -/
theorem qualify_group_fails {way : List (Object R)} (position : List Nat) {b : Base R}
    {cs : List (Object R)} {info : GroupInfo R} {e : Members R} {s : State R} (hf : ¬ f.Mild R)
    (hscope : TimeScope.along fps root way = .ok scope)
    (h : (qualify d fps (Level.along way).path (Level.along way).lead scope
      (.group b cs info e)).Fails s f) :
    (claimPath (Level.along way).path (Level.along way).lead b.id).Fails s f ∨
      ∃ own s₁, TimeScope.along fps root (way ++ [.group b cs info e]) = .ok own ∧
        s₁.library = s.library ∧ s₁.paths = ((Level.along way).fullId b.id).toList ++ s.paths ∧
        ((qualifyAll d fps (Level.along (way ++ [.group b cs info e])).path
            (Level.along (way ++ [.group b cs info e])).lead own cs).Fails s₁ f ∨
          ∃ cause ∈ ownCauses b info, Source.Strays d s.library fps root
            ⟨position, way ++ [.group b cs info e], cause⟩ f) := by
  rw [qualify_group_eq] at h
  rcases Run.fails_bind.mp h with h | ⟨path, s₁, hclaim, h⟩
  · exact .inl h
  obtain ⟨rfl, hlibrary, hpaths, -⟩ := claimPath_yields hclaim
  rcases Run.fails_lift_bind.mp h with h | ⟨own, hown, h⟩
  · exact (hf (TimeScope.mild_enter scope info fps f h)).elim
  have halong : TimeScope.along fps root (way ++ [.group b cs info e]) = .ok own :=
    TimeScope.along_concat_eq_ok.mpr ⟨scope, hscope, hown⟩
  refine .inr ⟨own, s₁, halong, hlibrary, hpaths, ?_⟩
  rw [← Level.path_along_concat way b cs info e, ← Level.lead_along_concat way b cs info e] at h
  rcases Run.fails_bind.mp h with h | ⟨⟨children, below⟩, s₂, hinner, h⟩
  · exact .inl h
  right
  have hsame : s.library.Agrees d s₂.library := by
    rw [← hlibrary]
    exact leaves_qualifyAll _ _ _ s₁ _ s₂ hinner
  rcases Run.fails_lift_bind.mp h with h | ⟨duration, -, h⟩
  · exact (hf (mild_durationFrames fps _ f h)).elim
  rcases Run.fails_bind.mp h with h | ⟨transitions, s₃, htransitions, h⟩
  · have hpath : ((Level.along way).fullId b.id).isSome → b.id.isSome := by
      rw [Level.fullId, Option.isSome_map]
      exact id
    obtain ⟨cause, hcause, name, hname, hhides⟩ := groupTransitions_fails hf hpath h
    exact ⟨cause, List.mem_append_left _ (List.mem_append_left _ hcause),
      .hidden hname (hhides.of_agrees hsame)⟩
  have hsame₃ := hsame.trans (leaves_groupTransitions _ _ _ _ _ s₂ _ s₃ htransitions)
  rcases Run.fails_bind.mp h with h | ⟨animations, s₄, hanimations, h⟩
  · obtain ⟨x, hx, hstray⟩ := emitAll_fails hf h
    exact ⟨.entry x, List.mem_append_left _ (List.mem_append_right _ (List.mem_map_of_mem hx)),
      (hstray.of_agrees hsame₃).entry halong⟩
  have hsame₄ := hsame₃.trans (leaves_emitAll _ _ _ _ s₃ _ s₄ hanimations)
  rcases Run.fails_bind.mp h with h | ⟨resolved, s₅, -, h⟩
  · obtain ⟨x, hx, hstray⟩ := emitAll_fails hf h
    obtain ⟨y, hy, rfl⟩ := List.mem_map.mp hx
    exact ⟨.resolved y, List.mem_append_right _ (List.mem_map_of_mem hy),
      (hstray.of_agrees hsame₄).resolved⟩
  · exact (Run.fails_pure.mp h).elim

theorem qualifyAll_cons_fails {parent lead : String} {o : Object R} {rest : List (Object R)}
    {s : State R} (h : (qualifyAll d fps parent lead scope (o :: rest)).Fails s f) :
    (qualify d fps parent lead scope o).Fails s f ∨
      ∃ c below s₁, (qualify d fps parent lead scope o).Yields s (c, below) s₁ ∧
        (qualifyAll d fps parent lead scope rest).Fails s₁ f := by
  rw [qualifyAll] at h
  rcases Run.fails_bind.mp h with h | ⟨⟨c, below⟩, s₁, hfirst, h⟩
  · exact .inl h
  · rcases Run.fails_bind.mp h with h | ⟨others, s₂, -, h⟩
    · exact .inr ⟨c, below, s₁, hfirst, h⟩
    · exact (Run.fails_pure.mp h).elim

/-- Objects are refused, in a way that is not mild, for a path or for one of their sources. -/
theorem qualifyAll_fails {way : List (Object R)} (position : List Nat) (i : Nat)
    {os : List (Object R)} {s : State R} (hf : ¬ f.Mild R)
    (hscope : TimeScope.along fps root way = .ok scope)
    (h : (qualifyAll d fps (Level.along way).path (Level.along way).lead scope os).Fails s f) :
    (∃ p, f = .duplicatePath p) ∨
      ∃ src ∈ sourcesFrom position way i os, src.Strays d s.library fps root f := by
  have hclaimed {l : Level} {id : Option String} {s : State R}
      (h : (claimPath l.path l.lead id).Fails s f) : ∃ p, f = .duplicatePath p := by
    obtain ⟨p, -, -, rfl⟩ := claimPath_fails h
    exact ⟨p, rfl⟩
  have hrest {way : List (Object R)} {scope : TimeScope R} {position : List Nat} {i : Nat}
      {s s₁ : State R} {o : Object R} {rest : List (Object R)} {first : Object R × List (Track R)}
      (hfirst : (qualify d fps (Level.along way).path (Level.along way).lead scope o).Yields s first
        s₁)
      (h : (∃ p, f = .duplicatePath p) ∨
        ∃ src ∈ sourcesFrom position way (i + 1) rest, src.Strays d s₁.library fps root f) :
      (∃ p, f = .duplicatePath p) ∨
        ∃ src ∈ sourcesFrom position way i (o :: rest), src.Strays d s.library fps root f := by
    refine h.imp_right ?_
    rintro ⟨src, hsrc, hstrays⟩
    exact ⟨src, List.mem_append_right _ hsrc,
      hstrays.of_agrees (leaves_qualify (Level.along way) scope o s first s₁ hfirst)⟩
  induction os using Object.forest generalizing way scope position i s with
  | nil => exact (Run.fails_pure.mp h).elim
  | shape b sh e rest ih | reference b r e rest ih =>
    rcases qualifyAll_cons_fails h with h | ⟨c, below, s₁, hfirst, h⟩
    · rw [qualify] at h
      rcases Run.fails_bind.mp h with h | ⟨path, s₁, -, h⟩
      · exact .inl (hclaimed h)
      · exact (Run.fails_pure.mp h).elim
    · exact hrest hfirst (ih position (i + 1) hscope h)
  | group b cs info e rest ihChildren ihRest =>
    rcases qualifyAll_cons_fails h with h | ⟨c, below, s₁, hfirst, h⟩
    · rcases qualify_group_fails (position ++ [i]) hf hscope h with h | ⟨own, s₁, hown, hlibrary, -,
        h | ⟨cause, hcause, hstrays⟩⟩
      · exact .inl (hclaimed h)
      · refine (ihChildren (position ++ [i]) 0 hown h).imp_right ?_
        rintro ⟨src, hsrc, hstrays⟩
        rw [hlibrary] at hstrays
        exact ⟨src, List.mem_append_left _ (List.mem_append_left _ hsrc), hstrays⟩
      · exact .inr ⟨_, List.mem_append_left _ (List.mem_append_right _
          (List.mem_map_of_mem hcause)), hstrays⟩
    · exact hrest hfirst (ihRest position (i + 1) hscope h)

theorem flattenIn_fails {objects : List (Object R)} {entries : List (Entry R)}
    {speed : Option (Number R)} {library : EffectLibrary R}
    (h : (flatten d fps objects entries speed).Fails library f) :
    (flattenIn d fps objects entries speed).Fails ⟨library, []⟩ f := by
  rwa [flatten, Run.fails_get_bind, Run.fails_set_bind] at h

/-- Flattening is refused, in a way that is not mild, for a path that two objects would have or for
a source of the tree. -/
theorem flatten_fails {objects : List (Object R)} {entries : List (Entry R)}
    {speed : Option (Number R)} {library : EffectLibrary R} (hf : ¬ f.Mild R)
    (h : (flatten d fps objects entries speed).Fails library f) :
    (∃ p, f = .duplicatePath p) ∨ ∃ src ∈ sourcesOfAll objects entries,
      src.Strays d library fps (TimeScope.root speed) f := by
  have hrun := flattenIn_fails h
  have hroot : TimeScope.along fps (TimeScope.root speed) [] = .ok (TimeScope.root speed) := rfl
  rw [flattenIn] at hrun
  rcases Run.fails_bind.mp hrun with hrun | ⟨⟨compiled, below⟩, s, hall, hrun⟩
  · refine (qualifyAll_fails [] 0 hf hroot hrun).imp_right ?_
    rintro ⟨src, hsrc, hstrays⟩
    exact ⟨src, List.mem_append_right _ hsrc, hstrays⟩
  rcases Run.fails_bind.mp hrun with hrun | ⟨own, s₁, -, hrun⟩
  · obtain ⟨e, he, hstray⟩ := emitAll_fails hf hrun
    have hsame : library.Agrees d s.library := leaves_qualifyAll Level.root _ _ _ _ s hall
    exact .inr ⟨_, List.mem_append_left _ (List.mem_map_of_mem he),
      (hstray.of_agrees hsame).entry hroot⟩
  · exact (Run.fails_pure.mp hrun).elim

end Flattening

end Storyboard
