import Storyboard.Proofs.Merging
import Storyboard.Proofs.Stores.History
import Storyboard.Proofs.Stores.Search

namespace Storyboard

namespace EffectLibrary

open Event

variable {R : Type} [Scalar R]

/-- What is asked of a library: to register a definition, to keep an effect that is read already, to
give an effect, or to list the names. -/
inductive Request (R : Type) where
  | register (name : String) (definition : Json R)
  | put (name : String) (e : Effect R)
  | get (name : String)
  | names

/-- The library after a request. -/
def apply (d : Disk) : Request R → EffectLibrary R → EffectLibrary R
  | .register name definition, l => ((register name definition).exec l).2
  | .put name e, l => put name e l
  | .get name, l => ((get d name).exec l).2
  | .names, l => l

/-- The disk and the library after a history that begins with nothing registered or read. -/
def after (folders : List Route) (d : Disk) (events : List (Event (Request R))) :
    Disk × EffectLibrary R :=
  events.foldl (Event.run clear apply) (d, ofFolders folders)

/-- That a request puts a definition under a name. -/
def PutsAs (name : String) (e : Effect R) (r : Request R) : Prop :=
  r = .put name e ∨
    ∃ definition, r = .register name definition ∧ readDocument Effect.codec definition = .ok e

/-- That a request puts some definition under a name. -/
def Puts (name : String) (_ : List (Event (Request R))) (r : Request R) : Prop :=
  ∃ e, PutsAs name e r

/-- That a get of a name after a history is answered. -/
def Loads (folders : List Route) (d : Disk) (name : String) (before : List (Event (Request R)))
    (r : Request R) : Prop :=
  r = .get name ∧
    ∃ e l, (get (after folders d before).1 name).Yields (after folders d before).2 e l

/-- That the file of an effect holds a definition after a history. -/
def HeldAt (folders : List Route) (d : Disk) (name : String) (before : List (Event (Request R)))
    (e : Effect R) : Prop :=
  ∃ folder, Stops (after folders d before).1 name folders folder (.ok true) ∧
    readFile (after folders d before).1 name (fileIn name folder) = .ok e

/-- The definition of a name after a history: the one that was put there last, or if there is none
the one that was read first. -/
def Holds (folders : List Route) (d : Disk) (events : List (Event (Request R))) (name : String)
    (e : Effect R) : Prop :=
  (∃ before r, Last (Puts name) events before r ∧ PutsAs name e r) ∨
    NoneSince (Puts name) events ∧ ∃ before r, First (Loads folders d name) events before r ∧
      HeldAt folders d name before e

section

variable {folders : List Route} {d : Disk} {events : List (Event (Request R))} {name : String}
  {r : Request R}

theorem after_concat (event : Event (Request R)) :
    after folders d (events ++ [event]) = Event.run clear apply (after folders d events) event := by
  simp [after]

theorem after_call : (after folders d (events ++ [.call r])).2 =
    apply (after folders d events).1 r (after folders d events).2 := by
  rw [after_concat]
  rfl

theorem apply_folders (d : Disk) (r : Request R) (l : EffectLibrary R) :
    (apply d r l).folders = l.folders := by
  cases r with
  | register name definition =>
    rw [apply, exec_register]
    cases readDocument Effect.codec definition <;> rfl
  | put name e => rfl
  | get name =>
    cases hanswer : ((get d name).exec l).1 with
    | ok e =>
      rcases get_answered hanswer with ⟨-, h⟩ | ⟨-, h, -⟩ <;> rw [apply, h]
      rfl
    | error f => rw [apply, get_refused hanswer]
  | names => rfl

theorem after_folders (folders : List Route) (d : Disk) (events : List (Event (Request R))) :
    (after folders d events).2.folders = folders := by
  induction events using List.reverseRecOn with
  | nil => rfl
  | append_singleton events event ih =>
    rw [after_concat]
    cases event with
    | edit change => exact ih
    | clear => exact ih
    | call r => exact (apply_folders _ r _).trans ih

/-- What a library keeps for a name after a history. -/
structure Keeps (folders : List Route) (d : Disk) (name : String)
    (events : List (Event (Request R))) : Prop where
  none_iff : Members.get? name (after folders d events).2.cache = none ↔
    NoneSince (Puts name) events ∧ NoneSince (Loads folders d name) events
  some_iff (e : Effect R) : Members.get? name (after folders d events).2.cache = some e ↔
    Holds folders d events name e

theorem PutsAs.unique {e e' : Effect R} (h : PutsAs name e r) (h' : PutsAs name e' r) : e = e' := by
  rcases h with rfl | ⟨definition, rfl, hread⟩ <;>
    rcases h' with he | ⟨other, he, hread'⟩ <;> cases he
  · rfl
  · exact Except.ok.inj (hread.symm.trans hread')

theorem apply_puts {d : Disk} {l : EffectLibrary R} {e : Effect R} (h : PutsAs name e r) :
    apply d r l = put name e l := by
  rcases h with rfl | ⟨definition, rfl, hread⟩
  · rfl
  · rw [apply, exec_register, hread]

/-- A request that neither puts nor looks up a name leaves what is kept for it. -/
theorem get?_apply {d : Disk} {l : EffectLibrary R} (hputs : ∀ e, ¬ PutsAs name e r)
    (hget : r ≠ .get name) : Members.get? name (apply d r l).cache = Members.get? name l.cache := by
  cases r with
  | register other definition =>
    rw [apply, exec_register]
    cases hread : readDocument Effect.codec definition with
    | ok e =>
      have hne : name ≠ other := fun he => hputs e (.inr ⟨definition, he ▸ rfl, hread⟩)
      exact Members.get?_insert_of_ne hne _ _
    | error f => rfl
  | put other e =>
    have hne : name ≠ other := fun he => hputs e (.inl (he ▸ rfl))
    exact Members.get?_insert_of_ne hne _ _
  | get other =>
    have hne : name ≠ other := fun he => hget (he ▸ rfl)
    cases hanswer : ((get d other).exec l).1 with
    | ok e =>
      rcases get_answered hanswer with ⟨-, h⟩ | ⟨-, h, -⟩ <;> rw [apply, h]
      exact Members.get?_insert_of_ne hne _ _
    | error f => rw [apply, get_refused hanswer]
  | names => rfl

theorem Keeps.of_puts {e : Effect R} (h : PutsAs name e r) :
    Keeps folders d name (events ++ [.call r]) := by
  have hputs : Puts name events r := ⟨e, h⟩
  have hget : Members.get? name (after folders d (events ++ [.call r])).2.cache = some e := by
    rw [after_call, apply_puts h]
    exact Members.get?_insert_self _ _ _
  refine ⟨by simp [hget, noneSince_call, hputs], fun e' => ?_⟩
  simp only [hget, Holds, last_call hputs, noneSince_call, hputs, not_true_eq_false, and_false,
    false_and, or_false]
  constructor
  · intro he
    exact ⟨events, r, ⟨rfl, rfl⟩, Option.some.inj he ▸ h⟩
  · intro hlast
    obtain ⟨before, r', ⟨rfl, rfl⟩, h'⟩ := hlast
    rw [h.unique h']

theorem Keeps.of_same (h : Keeps folders d name events) (hputs : ¬ Puts name events r)
    (hget : Members.get? name (after folders d (events ++ [.call r])).2.cache =
      Members.get? name (after folders d events).2.cache)
    (hloads : Loads folders d name events r →
      Members.get? name (after folders d events).2.cache ≠ none) :
    Keeps folders d name (events ++ [.call r]) := by
  -- An answered get changes nothing if something is kept already.
  have hkept : Loads folders d name events r → NoneSince (Puts name) events →
      ¬ NoneSince (Loads folders d name) events :=
    fun hload hnone hnone' => hloads hload (h.none_iff.mpr ⟨hnone, hnone'⟩)
  refine ⟨?_, fun e => ?_⟩
  · rw [hget, h.none_iff, noneSince_call, noneSince_call]
    constructor
    · intro hnone
      exact ⟨⟨hnone.1, hputs⟩, hnone.2, fun hload => hkept hload hnone.1 hnone.2⟩
    · intro hnone
      exact ⟨hnone.1.1, hnone.2.1⟩
  · rw [hget, h.some_iff]
    simp only [Holds, last_other hputs, noneSince_call, hputs, not_false_eq_true, and_true,
      first_call]
    refine or_congr_right (and_congr_right fun hnone => ?_)
    constructor
    · intro hfirst
      obtain ⟨before, r', hfirst, hheld⟩ := hfirst
      exact ⟨before, r', .inl hfirst, hheld⟩
    · intro hfirst
      obtain ⟨before, r', hfirst | ⟨-, hload, hnone'⟩, hheld⟩ := hfirst
      · exact ⟨before, r', hfirst, hheld⟩
      · exact absurd hnone' (hkept hload hnone)

theorem HeldAt.unique {e e' : Effect R} (h : HeldAt folders d name events e)
    (h' : HeldAt folders d name events e') : e = e' := by
  obtain ⟨folder, hstops, hread⟩ := h
  obtain ⟨folder', hstops', hread'⟩ := h'
  have hfile := (hstops.findFile_eq (by simp)).symm.trans (hstops'.findFile_eq (by simp))
  have hroute : fileIn name folder = fileIn name folder' := Option.some.inj (Except.ok.inj hfile)
  rw [hroute] at hread
  exact Except.ok.inj (hread.symm.trans hread')

theorem Keeps.of_read (h : Keeps folders d name events) {e : Effect R}
    (hputs : ¬ Puts name events r)
    (hget : Members.get? name (after folders d events).2.cache = none)
    (hload : Loads folders d name events r) (hheld : HeldAt folders d name events e)
    (hadd : Members.get? name (after folders d (events ++ [.call r])).2.cache = some e) :
    Keeps folders d name (events ++ [.call r]) := by
  obtain ⟨hnone, hnone'⟩ := h.none_iff.mp hget
  refine ⟨by simp [hadd, noneSince_call, hload], fun e' => ?_⟩
  simp only [hadd, Holds, last_other hputs, noneSince_call, hputs, not_false_eq_true, and_true,
    first_call]
  constructor
  · intro he
    obtain rfl := Option.some.inj he
    exact .inr ⟨hnone, events, r, .inr ⟨⟨rfl, rfl⟩, hload, hnone'⟩, hheld⟩
  · intro hholds
    rcases hholds with ⟨before, r', hlast, -⟩ | ⟨-, before, r', hfirst | ⟨⟨rfl, rfl⟩, -⟩, hheld'⟩
    · exact absurd hnone hlast.not_noneSince
    · exact absurd hnone' hfirst.not_noneSince
    · rw [hheld.unique hheld']

theorem Keeps.get (h : Keeps folders d name events) :
    Keeps folders d name (events ++ [.call (.get name)]) := by
  have hputs : ¬ Puts name events (.get name : Request R) := by
    intro hputs
    obtain ⟨e, he | ⟨definition, he, -⟩⟩ := hputs <;> cases he
  have hafter : (after folders d (events ++ [.call (.get name)])).2 =
      ((EffectLibrary.get (after folders d events).1 name).exec (after folders d events).2).2 :=
    after_call
  cases hanswer :
      ((EffectLibrary.get (after folders d events).1 name).exec (after folders d events).2).1 with
  | ok e =>
    rcases get_answered hanswer with ⟨hget, hsame⟩ | ⟨hget, hadd, folder, hstops, hread⟩
    · exact h.of_same hputs (by rw [hafter, hsame]) fun _ => by simp [hget]
    · rw [after_folders] at hstops
      refine h.of_read hputs hget ⟨rfl, e, _, Prod.ext hanswer rfl⟩ ⟨folder, hstops, hread⟩ ?_
      rw [hafter, hadd]
      exact Members.get?_insert_self _ _ _
  | error f =>
    refine h.of_same hputs (by rw [hafter, get_refused hanswer]) fun hload => ?_
    obtain ⟨-, e, l, hyields⟩ := hload
    rw [Run.Yields] at hyields
    rw [hyields] at hanswer
    cases hanswer

theorem Keeps.edit {change : Disk → Disk} (h : Keeps folders d name events) :
    Keeps folders d name (events ++ [.edit change]) where
  none_iff := by
    rw [after_concat, noneSince_edit, noneSince_edit]
    exact h.none_iff
  some_iff e := by
    simp only [Holds, last_edit, first_edit, noneSince_edit]
    rw [after_concat]
    exact h.some_iff e

theorem keeps (folders : List Route) (d : Disk) (name : String)
    (events : List (Event (Request R))) : Keeps folders d name events := by
  induction events using List.reverseRecOn with
  | nil =>
    refine ⟨?_, fun e => ?_⟩
    · simp [after, ofFolders, Members.get?, noneSince_nil]
    · simp [after, ofFolders, Members.get?, Holds, not_last_nil, not_first_nil]
  | append_singleton events event ih =>
    cases event with
    | edit change => exact ih.edit
    | clear =>
      refine ⟨?_, fun e => ?_⟩
      · simp [after_concat, Event.run, clear, Members.get?, noneSince_clear]
      · simp [after_concat, Event.run, clear, Members.get?, Holds, not_last_clear, not_first_clear]
    | call r =>
      by_cases hputs : Puts name events r
      · obtain ⟨e, he⟩ := hputs
        exact .of_puts he
      · by_cases hget : r = .get name
        · rw [hget]
          exact ih.get
        · refine ih.of_same hputs ?_ fun hload => absurd hload.1 hget
          rw [after_call]
          exact get?_apply (fun e he => hputs ⟨e, he⟩) hget

end

/-- A get is answered with what is held for its name since the last clear, and if nothing is, with
what the file holds now in the first folder that has it. What is refused changes nothing. The names
are in ascending order, and those of all definitions held are among them. -/
theorem get_history (folders : List Route) (d : Disk) (events : List (Event (Request R))) :
    (after folders d events).2.folders = folders ∧
    (∀ name,
      (∃ e, Holds folders d events name e ∧
        (get (after folders d events).1 name).exec (after folders d events).2 =
          (.ok e, (after folders d events).2)) ∨
      NoneSince (Puts name) events ∧ NoneSince (Loads folders d name) events ∧
        LooksUp (after folders d events).1 (after folders d events).2 name) ∧
    (∀ name definition, (register name definition).exec (after folders d events).2 =
      match readDocument Effect.codec definition with
      | .ok e => (.ok e, put name e (after folders d events).2)
      | .error f => (.error f, (after folders d events).2)) ∧
    match (after folders d events).2.names (after folders d events).1 with
    | .ok names => Increasing names ∧
        ∀ name ∈ (after folders d events).2.cache.map Prod.fst, name ∈ names
    | .error cause => ∃ folder ∈ folders, cause = .nameTooLong folder.text ∧
        (after folders d events).1.entries folder = .error cause := by
  refine ⟨after_folders folders d events, fun name => ?_,
    fun name definition => exec_register name definition _, ?_⟩
  · have hkeeps := keeps folders d name events
    cases hget : Members.get? name (after folders d events).2.cache with
    | some e => exact .inl ⟨e, (hkeeps.some_iff e).mp hget, get_hit hget⟩
    | none =>
      obtain ⟨hputs, hloads⟩ := hkeeps.none_iff.mp hget
      exact .inr ⟨hputs, hloads, get_fresh hget⟩
  · cases hnames : (after folders d events).2.names (after folders d events).1 with
    | ok names => exact names_eq_ok hnames
    | error cause =>
      obtain ⟨folder, hfolder, hentries⟩ := names_eq_error hnames
      rw [after_folders] at hfolder
      exact ⟨folder, hfolder, Disk.entries_tooLong hentries, hentries⟩

end EffectLibrary

end Storyboard
