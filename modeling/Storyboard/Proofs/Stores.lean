import Storyboard.Proofs.Run

namespace Storyboard

variable {R : Type} [Scalar R]

namespace DefinitionStore

/-- What a store gives for a place: what it has read there, or else what the file holds. -/
def Gives (d : Disk) (s : DefinitionStore R) (p : Place) (members : Members R) : Prop :=
  s.get? p = some members ∨
    s.get? p = none ∧ d.readMembers p.text (Route.ofPlace p) = .ok members

/-- A store that gives nothing but what another one gives. -/
def Within (d : Disk) (t s : DefinitionStore R) : Prop :=
  ∀ p members, t.Gives d p members → s.Gives d p members

theorem Within.refl (d : Disk) (s : DefinitionStore R) : s.Within d s := fun _ _ h => h

theorem Within.trans {d : Disk} {s t u : DefinitionStore R} (h : u.Within d t)
    (h' : t.Within d s) : u.Within d s := fun p members hu => h' p members (h p members hu)

theorem Gives.unique {d : Disk} {s : DefinitionStore R} {p : Place} {m m' : Members R}
    (h : s.Gives d p m) (h' : s.Gives d p m') : m = m' := by
  rcases h with h | ⟨h, hread⟩ <;> rcases h' with h' | ⟨h', hread'⟩ <;> simp_all

omit [Scalar R] in
theorem get?_add {s : DefinitionStore R} {p q : Place} {members : Members R}
    (hp : s.get? p = none) :
    get? ⟨s.cache ++ [(p, members)]⟩ q = if p = q then some members else s.get? q := by
  have hnone : s.cache.find? (fun e => e.1 == p) = none := Option.map_eq_none_iff.mp hp
  by_cases h : p = q
  · subst h
    simp [get?, List.find?_append, hnone]
  · simp [get?, List.find?_append, h]

/-- A definition that is loaded is what the store gives, before and after. -/
theorem load_yields {d : Disk} {p : Place} {s s' : DefinitionStore R} {members : Members R}
    (h : (load d p).Yields s members s') : s.Gives d p members ∧ s'.Within d s := by
  rw [load, Run.yields_get_bind] at h
  split at h
  · obtain ⟨rfl, rfl⟩ := Run.yields_pure.mp h
    exact ⟨.inl ‹_›, .refl d s⟩
  · rename_i hnone
    split at h
    · exact (Run.yields_throw.mp h).elim
    · rename_i found hread
      rw [Run.yields_modify_bind] at h
      obtain ⟨rfl, rfl⟩ := Run.yields_pure.mp h
      refine ⟨.inr ⟨hnone, hread⟩, ?_⟩
      intro q m hq
      simp only [Gives, get?_add hnone] at hq
      by_cases hpq : p = q
      · subst hpq
        obtain rfl : found = m := by simpa using hq
        exact .inr ⟨hnone, hread⟩
      · simpa [hpq, Gives] using hq

/-- What the store gives can be loaded, and what it gives it gives afterwards. -/
theorem load_of_gives {d : Disk} {p : Place} {s : DefinitionStore R} {members : Members R}
    (h : s.Gives d p members) : ∃ s', (load d p).Yields s members s' ∧ s.Within d s' := by
  rcases h with hget | ⟨hnone, hread⟩
  · refine ⟨s, ?_, .refl d s⟩
    rw [load, Run.yields_get_bind, hget]
    exact Run.yields_pure.mpr ⟨rfl, rfl⟩
  · refine ⟨⟨s.cache ++ [(p, members)]⟩, ?_, ?_⟩
    · rw [load, Run.yields_get_bind, hnone]
      simp only [hread]
      exact Run.yields_modify_bind.mpr (Run.yields_pure.mpr ⟨rfl, rfl⟩)
    · intro q m hq
      rw [Gives, get?_add hnone]
      by_cases hpq : p = q
      · subst hpq
        obtain rfl : members = m := Gives.unique (.inr ⟨hnone, hread⟩) hq
        exact .inl (if_pos rfl)
      · simpa [hpq, Gives] using hq

end DefinitionStore

namespace EffectLibrary

/-- What a library gives for a name: what is registered or was read, or else what the first folder
with such a file holds. -/
def Gives (d : Disk) (l : EffectLibrary R) (name : String) (e : Effect R) : Prop :=
  Members.get? name l.cache = some e ∨
    Members.get? name l.cache = none ∧
      ∃ route, findFile d name l.folders = .ok (some route) ∧ readFile d name route = .ok e

/-- A library that gives nothing but what another one gives. -/
def Within (d : Disk) (k l : EffectLibrary R) : Prop :=
  ∀ name e, k.Gives d name e → l.Gives d name e

theorem Within.refl (d : Disk) (l : EffectLibrary R) : l.Within d l := fun _ _ h => h

theorem Within.trans {d : Disk} {j k l : EffectLibrary R} (h : j.Within d k) (h' : k.Within d l) :
    j.Within d l := fun name e hj => h' name e (h name e hj)

theorem Gives.unique {d : Disk} {l : EffectLibrary R} {name : String} {e e' : Effect R}
    (h : l.Gives d name e) (h' : l.Gives d name e') : e = e' := by
  rcases h with h | ⟨h, route, hfile, hread⟩ <;> rcases h' with h' | ⟨h', route', hfile', hread'⟩
  · exact Option.some.inj (h.symm.trans h')
  · rw [h] at h'
    cases h'
  · rw [h] at h'
    cases h'
  · obtain rfl := Option.some.inj (Except.ok.inj (hfile.symm.trans hfile'))
    exact Except.ok.inj (hread.symm.trans hread')

/-- An effect that is looked up is what the library gives, before and after. -/
theorem get_yields {d : Disk} {name : String} {l l' : EffectLibrary R} {e : Effect R}
    (h : (get d name).Yields l e l') : l.Gives d name e ∧ l'.Within d l := by
  rw [get, Run.yields_get_bind] at h
  split at h
  · obtain ⟨rfl, rfl⟩ := Run.yields_pure.mp h
    exact ⟨.inl ‹_›, .refl d l⟩
  · rename_i hnone
    obtain ⟨found, l₁, hfound, h⟩ := Run.yields_bind.mp h
    obtain ⟨hfile, rfl⟩ := Run.yields_ofDisk.mp hfound
    cases found with
    | none =>
      obtain ⟨_, _, _, h⟩ := Run.yields_bind.mp h
      exact (Run.yields_throw.mp h).elim
    | some route =>
      obtain ⟨e₁, hread, h⟩ := Run.yields_lift_bind.mp h
      rw [Run.yields_modify_bind] at h
      obtain ⟨rfl, rfl⟩ := Run.yields_pure.mp h
      refine ⟨.inr ⟨hnone, route, hfile, hread⟩, ?_⟩
      intro n x hx
      by_cases hn : n = name
      · subst hn
        obtain rfl : e₁ = x := by simpa [Gives, put, Members.get?_insert_self] using hx
        exact .inr ⟨hnone, route, hfile, hread⟩
      · simpa [Gives, put, Members.get?_insert_of_ne hn] using hx

/-- What the library gives can be looked up, and what it gives it gives afterwards. -/
theorem get_of_gives {d : Disk} {name : String} {l : EffectLibrary R} {e : Effect R}
    (h : l.Gives d name e) : ∃ l', (get d name).Yields l e l' ∧ l.Within d l' := by
  rcases h with hget | ⟨hnone, route, hfile, hread⟩
  · refine ⟨l, ?_, .refl d l⟩
    rw [get, Run.yields_get_bind, hget]
    exact Run.yields_pure.mpr ⟨rfl, rfl⟩
  · refine ⟨put name e l, ?_, ?_⟩
    · rw [get, Run.yields_get_bind, hnone]
      refine Run.yields_bind.mpr ⟨some route, l, Run.yields_ofDisk.mpr ⟨hfile, rfl⟩, ?_⟩
      refine Run.yields_lift_bind.mpr ⟨e, hread, ?_⟩
      exact Run.yields_modify_bind.mpr (Run.yields_pure.mpr ⟨rfl, rfl⟩)
    · intro n x hx
      by_cases hn : n = name
      · subst hn
        obtain rfl : e = x := Gives.unique (.inr ⟨hnone, route, hfile, hread⟩) hx
        exact .inl (Members.get?_insert_self _ _ _)
      · simpa [Gives, put, Members.get?_insert_of_ne hn] using hx

end EffectLibrary

end Storyboard
