import Storyboard.Proofs.Stores
import Storyboard.Proofs.Stores.History

namespace Storyboard.DefinitionStore

open Event

variable {R : Type} [Scalar R]

/-- A path that is loaded, as seen from a folder. -/
structure Request where
  folder : Place
  path : String

/-- The definition at a path. -/
def answer (d : Disk) (r : Request) : Run (DefinitionStore R) (Members R) := do
  load d (← Run.ofDisk (Place.locate r.folder r.path))

/-- The disk and the store after a history that begins with an empty store. -/
def after (R : Type) [Scalar R] (d : Disk) (events : List (Event Request)) :
    Disk × DefinitionStore R :=
  events.foldl (Event.run (fun _ => empty) fun d r s => ((answer d r).exec s).2) (d, empty)

/-- What the file at a place holds after a history. -/
def heldAt (R : Type) [Scalar R] (d : Disk) (events : List (Event Request)) (p : Place) :
    Except FileFault (Members R) :=
  (after R d events).1.readMembers p.text (Route.ofPlace p)

/-- That a request after a history leads to a place and is answered. -/
def Loads (R : Type) [Scalar R] (d : Disk) (p : Place) (before : List (Event Request))
    (r : Request) : Prop :=
  Place.locate r.folder r.path = .ok p ∧
    ∃ members s, (answer (after R d before).1 r).Yields (after R d before).2 members s

section

variable {d : Disk} {p q : Place} {s : DefinitionStore R} {members : Members R} {r : Request}
  {cause : FileFault}

omit [Scalar R] in
theorem get?_eq_none : s.get? p = none ↔ p ∉ s.cache.map Prod.fst := by
  rw [get?, Option.map_eq_none_iff, List.find?_eq_none, List.mem_map]
  constructor
  · intro h hmem
    obtain ⟨e, he, rfl⟩ := hmem
    exact h e he (beq_self_eq_true e.1)
  · intro h e he hp
    exact h ⟨e, he, eq_of_beq hp⟩

theorem load_hit (h : s.get? p = some members) : (load d p).exec s = (.ok members, s) := by
  rw [load, Run.exec_get_bind, h]
  rfl

theorem load_read (h : s.get? p = none)
    (hread : d.readMembers p.text (Route.ofPlace p) = .ok members) :
    (load d p).exec s = (.ok members, ⟨s.cache ++ [(p, members)]⟩) := by
  rw [load, Run.exec_get_bind, h]
  simp only [hread, Run.exec_modify_bind]
  rfl

theorem load_refused (h : s.get? p = none)
    (hread : d.readMembers (R := R) p.text (Route.ofPlace p) = .error cause) :
    (load d p).exec s = (.error (loadFault p.text cause), s) := by
  rw [load, Run.exec_get_bind, h]
  simp only [hread]
  rfl

theorem answer_located (h : Place.locate r.folder r.path = .ok p) :
    (answer d r).exec s = (load d p).exec s := by
  rw [answer, h, Run.exec_ofDisk_bind]

theorem answer_refused (h : Place.locate r.folder r.path = .error cause) :
    (answer (R := R) d r).exec s = (.error (.read cause), s) := by
  rw [answer, h, Run.exec_ofDisk_bind]

/-- A load changes nothing but what is kept for its own place. -/
theorem get?_answer (h : Place.locate r.folder r.path ≠ .ok p) :
    ((answer d r).exec s).2.get? p = s.get? p := by
  cases hlocate : Place.locate r.folder r.path with
  | error cause => rw [answer_refused hlocate]
  | ok q =>
    have hne : q ≠ p := fun he => h (hlocate.trans (congrArg _ he))
    rw [answer_located hlocate]
    cases hget : s.get? q with
    | some kept => rw [load_hit hget]
    | none =>
      cases hread : d.readMembers (R := R) q.text (Route.ofPlace q) with
      | ok members => rw [load_read hget hread, get?_add hget, if_neg hne]
      | error cause => rw [load_refused hget hread]

end

section

variable {d : Disk} {events : List (Event Request)} {p : Place} {r : Request}

theorem after_concat (event : Event Request) : after R d (events ++ [event]) =
    Event.run (fun _ => empty) (fun d r s => ((answer d r).exec s).2) (after R d events) event := by
  simp [after]

theorem after_call : (after R d (events ++ [.call r])).2 =
    ((answer (after R d events).1 r).exec (after R d events).2).2 := by
  rw [after_concat]
  rfl

/-- What a store keeps for a place after a history. -/
structure Keeps (R : Type) [Scalar R] (d : Disk) (p : Place) (events : List (Event Request)) :
    Prop where
  none_iff : (after R d events).2.get? p = none ↔ NoneSince (Loads R d p) events
  some_iff (members : Members R) : (after R d events).2.get? p = some members ↔
    ∃ before r, First (Loads R d p) events before r ∧ heldAt R d before p = .ok members

theorem Keeps.of_same {event : Event Request} (h : Keeps R d p events)
    (hget : (after R d (events ++ [event])).2.get? p = (after R d events).2.get? p)
    (hnone : NoneSince (Loads R d p) (events ++ [event]) ↔ NoneSince (Loads R d p) events)
    (hfirst : ∀ before r, First (Loads R d p) (events ++ [event]) before r ↔
      First (Loads R d p) events before r) : Keeps R d p (events ++ [event]) where
  none_iff := by rw [hget, hnone, h.none_iff]
  some_iff members := by simp only [hget, hfirst, h.some_iff]

theorem Keeps.of_hit (h : Keeps R d p events) {kept : Members R}
    (hget : (after R d events).2.get? p = some kept)
    (hsame : (after R d (events ++ [.call r])).2.get? p = some kept) :
    Keeps R d p (events ++ [.call r]) := by
  have hsome : ¬ NoneSince (Loads R d p) events := by simp [← h.none_iff, hget]
  refine h.of_same (hsame.trans hget.symm) ?_ fun before r => ?_
  · simp [noneSince_call, hsome]
  · simp [first_call, hsome]

theorem Keeps.of_miss (h : Keeps R d p events)
    (hsame : (after R d (events ++ [.call r])).2.get? p = (after R d events).2.get? p)
    (hmiss : ¬ Loads R d p events r) : Keeps R d p (events ++ [.call r]) := by
  refine h.of_same hsame ?_ fun before r => ?_
  · simp [noneSince_call, hmiss]
  · simp [first_call, hmiss]

theorem Keeps.of_read (h : Keeps R d p events) {members : Members R}
    (hget : (after R d events).2.get? p = none) (hheld : heldAt R d events p = .ok members)
    (hloads : Loads R d p events r)
    (hadd : (after R d (events ++ [.call r])).2.get? p = some members) :
    Keeps R d p (events ++ [.call r]) where
  none_iff := by simp [hadd, noneSince_call, hloads]
  some_iff found := by
    have hnone : NoneSince (Loads R d p) events := h.none_iff.mp hget
    have hfirst (before r) : ¬ First (Loads R d p) events before r :=
      fun hfirst => hfirst.not_noneSince hnone
    simp [hadd, first_call, hfirst, hloads, hnone, hheld]

theorem Keeps.call (h : Keeps R d p events) : Keeps R d p (events ++ [.call r]) := by
  by_cases hlocate : Place.locate r.folder r.path = .ok p
  · have hafter : (after R d (events ++ [.call r])).2 =
        ((load (after R d events).1 p).exec (after R d events).2).2 := by
      rw [after_call, answer_located hlocate]
    cases hget : (after R d events).2.get? p with
    | some kept => exact h.of_hit hget (by rw [hafter, load_hit hget, hget])
    | none =>
      cases hread : heldAt R d events p with
      | ok members =>
        have hload := load_read hget hread
        refine h.of_read hget hread ⟨hlocate, members, _, (answer_located hlocate).trans hload⟩ ?_
        rw [hafter, hload, get?_add hget, if_pos rfl]
      | error cause =>
        have hload := load_refused hget hread
        refine h.of_miss (by rw [hafter, hload]) fun hloads => ?_
        obtain ⟨-, members, s, hyields⟩ := hloads
        rw [Run.Yields, answer_located hlocate, hload] at hyields
        cases hyields
  · exact h.of_miss (by rw [after_call, get?_answer hlocate]) fun hloads => hlocate hloads.1

theorem Keeps.clear : Keeps R d p (events ++ [.clear]) where
  none_iff := by simp [after_concat, Event.run, empty, get?, noneSince_clear]
  some_iff members := by simp [after_concat, Event.run, empty, get?, not_first_clear]

theorem Keeps.edit {change : Disk → Disk} (h : Keeps R d p events) :
    Keeps R d p (events ++ [.edit change]) :=
  h.of_same (by rw [after_concat]; rfl) noneSince_edit fun _ _ => first_edit

theorem keeps (d : Disk) (p : Place) (events : List (Event Request)) : Keeps R d p events := by
  induction events using List.reverseRecOn with
  | nil =>
    refine ⟨?_, fun members => ?_⟩
    · simp [after, empty, get?, noneSince_nil]
    · simp [after, empty, get?, not_first_nil]
  | append_singleton events event ih =>
    cases event with
    | edit change => exact ih.edit
    | clear => exact .clear
    | call r => exact ih.call

theorem nodup_answer {s : DefinitionStore R} (h : (s.cache.map Prod.fst).Nodup) :
    (((answer d r).exec s).2.cache.map Prod.fst).Nodup := by
  cases hlocate : Place.locate r.folder r.path with
  | error cause => rwa [answer_refused hlocate]
  | ok q =>
    rw [answer_located hlocate]
    cases hget : s.get? q with
    | some kept => rwa [load_hit hget]
    | none =>
      cases hread : d.readMembers (R := R) q.text (Route.ofPlace q) with
      | ok members =>
        have hfresh := get?_eq_none.mp hget
        rw [load_read hget hread, List.map_append, List.map_singleton]
        refine List.nodup_append.mpr ⟨h, by simp, fun p hp q' hq' he => hfresh ?_⟩
        obtain rfl := List.mem_singleton.mp hq'
        exact he ▸ hp
      | error cause => rwa [load_refused hget hread]

/-- No place is kept twice. -/
theorem nodup_cache (d : Disk) (events : List (Event Request)) :
    ((after R d events).2.cache.map Prod.fst).Nodup := by
  induction events using List.reverseRecOn with
  | nil => exact List.nodup_nil
  | append_singleton events event ih =>
    cases event with
    | edit change => rwa [after_concat]
    | clear =>
      rw [after_concat]
      exact List.nodup_nil
    | call r =>
      rw [after_call]
      exact nodup_answer ih

end

/-- A load is answered with what its file held at the first load since the last clear that was
answered, and if there was none with what the file holds now. A refused load changes nothing, and
the size of the store is the number of places that were loaded since the last clear. -/
theorem load_history (d : Disk) (events : List (Event Request)) :
    (∀ r : Request, match Place.locate r.folder r.path with
      | .error cause => (answer (after R d events).1 r).exec (after R d events).2 =
          (.error (.read cause), (after R d events).2)
      | .ok p =>
        (∃ before first members, First (Loads R d p) events before first ∧
          heldAt R d before p = .ok members ∧
          (answer (after R d events).1 r).exec (after R d events).2 =
            (.ok members, (after R d events).2)) ∨
        NoneSince (Loads R d p) events ∧ match heldAt R d events p with
          | .ok members => ((answer (after R d events).1 r).exec (after R d events).2).1 =
              .ok members
          | .error cause => (answer (after R d events).1 r).exec (after R d events).2 =
              (.error (loadFault p.text cause), (after R d events).2)) ∧
    ∃ places : List Place, places.Nodup ∧
      (∀ p, p ∈ places ↔ ∃ before r, Since events before r ∧ Loads R d p before r) ∧
      (after R d events).2.size = places.length := by
  refine ⟨fun r => ?_, (after R d events).2.cache.map Prod.fst, nodup_cache d events,
    fun p => ?_, by simp [size]⟩
  · cases hlocate : Place.locate r.folder r.path with
    | error cause => exact answer_refused hlocate
    | ok p =>
      have hkeeps := keeps (R := R) d p events
      cases hget : (after R d events).2.get? p with
      | some members =>
        obtain ⟨before, first, hfirst, hheld⟩ := (hkeeps.some_iff members).mp hget
        exact .inl ⟨before, first, members, hfirst, hheld,
          (answer_located hlocate).trans (load_hit hget)⟩
      | none =>
        refine .inr ⟨hkeeps.none_iff.mp hget, ?_⟩
        cases hread : heldAt R d events p with
        | ok members =>
          exact congrArg Prod.fst ((answer_located hlocate).trans (load_read hget hread))
        | error cause => exact (answer_located hlocate).trans (load_refused hget hread)
  · have hkeeps := keeps (R := R) d p events
    rw [← not_iff_not, ← get?_eq_none, hkeeps.none_iff]
    simp only [NoneSince, not_exists, not_and]

end Storyboard.DefinitionStore
