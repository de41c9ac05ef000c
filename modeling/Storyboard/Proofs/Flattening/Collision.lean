import Mathlib.Data.List.ReduceOption
import Storyboard.Proofs.Address
import Storyboard.Proofs.Flattening.Failure

namespace Storyboard

variable {R : Type} [Scalar R]

namespace Flattening

mutual

/-- The full paths that objects on a level take, in the order in which they are taken. -/
def fullIds (l : Level) : Object R → List (Option String)
  | .shape b _ _ => [l.fullId b.id]
  | .reference b _ _ => [l.fullId b.id]
  | .group b cs info e => l.fullId b.id :: fullIdsAll (l.inside (.group b cs info e)) cs

def fullIdsAll (l : Level) : List (Object R) → List (Option String)
  | [] => []
  | o :: rest => fullIds l o ++ fullIdsAll l rest

end

theorem walk_absoluteAll {fps : Number R} {l : Level} {scope : TimeScope R}
    {objects compiled : List (Object R)}
    (h : absoluteAll fps l scope objects = .ok compiled) :
    (Address.walk compiled).map Object.id = fullIdsAll l objects := by
  induction objects using Object.forest generalizing l scope compiled with
  | nil =>
    cases h
    rfl
  | shape b s e rest ih | reference b r e rest ih =>
    obtain ⟨c, others, hc, hothers, rfl⟩ := absoluteAll_cons_eq_ok.mp h
    cases hc
    rw [Address.walk_cons, List.map_append, ih hothers]
    rfl
  | group b cs info e rest ihChildren ihRest =>
    obtain ⟨c, others, hc, hothers, rfl⟩ := absoluteAll_cons_eq_ok.mp h
    obtain ⟨own, children, duration, -, hchildren, -, rfl⟩ := absolute_group_eq_ok.mp hc
    rw [Address.walk_cons, List.map_append, List.map_cons, ihRest hothers]
    change _ :: (Address.walk children).map Object.id ++ _ = _
    rw [ihChildren hchildren]
    rfl

theorem ids_absoluteAll {fps : Number R} {l : Level} {scope : TimeScope R}
    {objects compiled : List (Object R)}
    (h : absoluteAll fps l scope objects = .ok compiled) :
    Address.ids compiled = (fullIdsAll l objects).reduceOption := by
  rw [← walk_absoluteAll h, Address.ids, List.reduceOption, List.filterMap_map]
  rfl

section

variable {d : Disk} {fps : Number R} {root scope : TimeScope R} {way : List (Object R)}

theorem qualify_paths {o c : Object R} {below : List (Track R)} {s s' : State R}
    (hscope : TimeScope.along fps root way = .ok scope)
    (h : (qualify d fps (Level.along way).path (Level.along way).lead scope o).Yields s
      (c, below) s') :
    s'.paths = (fullIds (Level.along way) o).reduceOption.reverse ++ s.paths := by
  obtain ⟨hcompiled, hadv⟩ := qualifyAll_yields [] [] 0 hscope (qualifyAll_singleton_yields h)
  rw [hadv.paths, ids_absoluteAll hcompiled, fullIdsAll, fullIdsAll, List.append_nil]

omit [Scalar R] in
theorem claimPath_collides {l : Level} {id : Option String} {s : State R} {p : String}
    (h : (claimPath l.path l.lead id).Fails s (.duplicatePath p)) :
    2 ≤ s.paths.count p + (l.fullId id).toList.count p := by
  obtain ⟨q, hq, hmem, he⟩ := claimPath_fails h
  obtain rfl : p = q := Fault.duplicatePath.inj he
  have := List.count_pos_iff.mpr hmem
  rw [hq, Option.toList_some, List.count_singleton_self]
  omega

/-- A path is refused only if it is taken twice. -/
theorem qualifyAll_collides {os : List (Object R)} {s : State R} {p : String}
    (hscope : TimeScope.along fps root way = .ok scope)
    (h : (qualifyAll d fps (Level.along way).path (Level.along way).lead scope os).Fails s
      (.duplicatePath p)) :
    2 ≤ s.paths.count p + (fullIdsAll (Level.along way) os).reduceOption.count p := by
  have hf : ¬ (Fault.duplicatePath p).Mild R := fun h => Bool.noConfusion h.1
  induction os using Object.forest generalizing way scope s with
  | nil => exact (Run.fails_pure.mp h).elim
  | shape b sh e rest ih | reference b r e rest ih =>
    rw [fullIdsAll, List.reduceOption_append, List.count_append]
    rcases qualifyAll_cons_fails h with h | ⟨c, below, s₁, hfirst, h⟩
    · rw [qualify] at h
      rcases Run.fails_bind.mp h with h | ⟨path, s₁, -, h⟩
      · have := claimPath_collides h
        rw [fullIds, List.reduceOption_singleton]
        omega
      · exact (Run.fails_pure.mp h).elim
    · have := ih hscope h
      rw [qualify_paths hscope hfirst, List.count_append, List.count_reverse] at this
      omega
  | group b cs info e rest ihChildren ihRest =>
    rw [fullIdsAll, List.reduceOption_append, List.count_append]
    rcases qualifyAll_cons_fails h with h | ⟨c, below, s₁, hfirst, h⟩
    · have hcons : (fullIds (Level.along way) (.group b cs info e)).reduceOption =
          ((Level.along way).fullId b.id).toList ++
            (fullIdsAll (Level.along (way ++ [.group b cs info e])) cs).reduceOption := by
        rw [fullIds, ← Level.along_concat, ← List.singleton_append, List.reduceOption_append,
          List.reduceOption_singleton]
      rw [hcons, List.count_append]
      rcases qualify_group_fails [] hf hscope h with h | ⟨own, s₁, hown, -, hpaths,
        h | ⟨cause, -, hstrays⟩⟩
      · have := claimPath_collides h
        omega
      · have := ihChildren hown h
        rw [hpaths, List.count_append] at this
        omega
      · cases hstrays with
        | hidden _ hhides =>
          obtain ⟨-, cause, hcause, -⟩ := hhides
          cases hcause
    · have := ihRest hscope h
      rw [qualify_paths hscope hfirst, List.count_append, List.count_reverse] at this
      omega

/-- Flattening refuses a path only if two objects would have it. -/
theorem flatten_collides {objects : List (Object R)} {entries : List (Entry R)}
    {speed : Option (Number R)} {library : EffectLibrary R} {p : String}
    (h : (flatten d fps objects entries speed).Fails library (.duplicatePath p)) :
    2 ≤ (fullIdsAll Level.root objects).count (some p) := by
  have hcount : (fullIdsAll Level.root objects).count (some p) =
      (fullIdsAll Level.root objects).reduceOption.count p := by
    rw [List.reduceOption, List.count_filterMap, List.count]
    rfl
  rw [hcount]
  have hrun := flattenIn_fails h
  rw [flattenIn] at hrun
  rcases Run.fails_bind.mp hrun with hrun | ⟨⟨compiled, below⟩, s, -, hrun⟩
  · have hroot : TimeScope.along fps (TimeScope.root speed) [] = .ok (TimeScope.root speed) := rfl
    have := qualifyAll_collides hroot hrun
    rwa [List.count_nil, Nat.zero_add] at this
  rcases Run.fails_bind.mp hrun with hrun | ⟨own, s₁, -, hrun⟩
  · have hf : ¬ (Fault.duplicatePath p).Mild R := fun h => Bool.noConfusion h.1
    obtain ⟨e, -, hstray⟩ := emitAll_fails hf hrun
    cases hstray with
    | hidden _ hhides =>
      obtain ⟨-, cause, hcause, -⟩ := hhides
      cases hcause
  · exact (Run.fails_pure.mp hrun).elim

end

end Flattening

end Storyboard
