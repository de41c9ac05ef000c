import Storyboard.Proofs.Faults
import Storyboard.Proofs.Stores

namespace Storyboard

/-- Whether a fault of a file that is read is no refusal. -/
def FileFault.hinders : FileFault → Bool
  | folder _ | belowFile _ | nameTooLong _ | nestedTooDeep _ => true
  | _ => false

theorem FileFault.not_refusal_of_hinders {cause : FileFault} (h : cause.hinders = true) :
    Command.isRefusalOfFile cause = false := by
  cases cause <;> first | rfl | cases h

theorem FileFault.refusal_of_isOfContent {cause : FileFault} (h : cause.isOfContent = true) :
    Command.isRefusalOfFile cause = true := by
  cases cause <;> first | rfl | cases h

namespace Disk

variable {R : Type} [Scalar R] {d : Disk} {path : String} {route : Route} {cause : FileFault}

theorem follow_fails {current : Place} {names : List String}
    (h : d.follow path current names = .error cause) :
    cause.hinders = true ∨ cause = .missing path := by
  induction names generalizing current with
  | nil => cases h
  | cons name rest ih =>
    rw [follow] at h
    split at h
    · split at h
      · cases h
        exact .inl rfl
      · exact ih h
    · split at h
      · cases h
        exact .inl rfl
      · cases h
        exact .inr rfl

theorem check_fails (h : Route.check path = .error cause) :
    cause.hinders = true ∨ Command.isRefusalOfFile cause = true := by
  rw [Route.check] at h
  split at h
  · rename_i fault hfault
    cases h
    rw [Route.fault?] at hfault
    split at hfault
    · cases hfault
      exact .inr rfl
    · split at hfault
      · cases hfault
        exact .inr rfl
      · cases hfault
  · split at h
    · cases h
      exact .inl rfl
    · cases h

theorem bytes_fails (h : d.bytes path route = .error cause) :
    cause.hinders = true ∨ Command.isRefusalOfFile cause = true ∨ cause = .missing path := by
  rcases bind_eq_error.mp h with h | ⟨u, -, h⟩
  · exact (check_fails h).imp_right .inl
  rcases bind_eq_error.mp h with h | ⟨place, -, h⟩
  · exact (follow_fails h).imp_right .inr
  split at h
  · cases h
  · split at h
    · cases h
      exact .inl rfl
    · cases h
      exact .inr (.inr rfl)

/-- Of a file whose bytes are there, a fault is no refusal only if it is nested too deep. -/
theorem readMembers_fails (h : d.readMembers (R := R) path route = .error cause) :
    d.bytes path route = .error cause ∨ cause.isOfContent = true ∨ cause = .nestedTooDeep path := by
  rcases bind_eq_error.mp h with h | ⟨j, -, h⟩
  · rcases bind_eq_error.mp h with h | ⟨content, -, h⟩
    · exact .inl h
    split at h
    · cases h
      exact .inr (.inl rfl)
    · rename_i text _
      cases hread : Json.read (R := R) maxLevels text with
      | ok j =>
        rw [hread] at h
        cases h
      | error fault =>
        rw [hread] at h
        cases h
        cases fault
        · exact .inr (.inl rfl)
        · exact .inr (.inr rfl)
        · exact .inr (.inl rfl)
  · split at h
    · cases h
    · cases h
      exact .inr (.inl rfl)

theorem readMembers_kinds (h : d.readMembers (R := R) path route = .error cause) :
    cause.hinders = true ∨ Command.isRefusalOfFile cause = true ∨ cause = .missing path := by
  rcases readMembers_fails h with hbytes | hcontent | rfl
  · exact bytes_fails hbytes
  · exact .inr (.inl (FileFault.refusal_of_isOfContent hcontent))
  · exact .inl rfl

theorem find_fails (h : d.find route = .error cause) : cause.hinders = true := by
  rw [find, lookUp] at h
  split at h
  · cases h
    rfl
  · cases h
  · split at h
    · cases h
    · cases h
      rfl
    · cases h

theorem hasFile_fails (h : d.hasFile route = .error cause) : cause.hinders = true := by
  rcases bind_eq_error.mp h with h | ⟨found, -, h⟩
  · exact find_fails h
  · cases h

/-- The bytes of a file that a disk has can be read. -/
theorem bytes_of_hasFile (h : d.hasFile route = .ok true) :
    ∃ content, d.bytes route.text route = .ok content := by
  cases hfind : d.find route with
  | error cause =>
    rw [hasFile, hfind] at h
    cases h
  | ok found =>
    rw [hasFile, hfind] at h
    have hany : found.any d.isFile = true := Except.ok.inj h
    obtain ⟨place, rfl, hfile⟩ := (Option.any_eq_true _ _).mp hany
    rw [find, lookUp] at hfind
    split at hfind
    · cases hfind
    · cases hfind
    · rename_i hcheck
      split at hfind
      · rename_i place' hfollow
        obtain rfl : place' = place := Option.some.inj (Except.ok.inj hfind)
        obtain ⟨content, hcontent⟩ := Option.isSome_iff_exists.mp hfile
        refine ⟨content, ?_⟩
        rw [bytes, hcheck, hfollow]
        simp only [bind, Except.bind, hcontent]
        rfl
      · cases hfind
      · cases hfind

theorem entries_fails (h : d.entries route = .error cause) : cause.hinders = true := by
  rcases bind_eq_error.mp h with h | ⟨found, -, h⟩
  · exact find_fails h
  · split at h
    · cases h
    · split at h <;> cases h

end Disk

variable {R : Type} [Scalar R]

namespace DefinitionStore

variable {d : Disk} {p : Place} {s : DefinitionStore R} {f : Fault}

/-- A file that cannot be read makes a refused definition, unless something hinders the reading. -/
theorem loadFault_spec {cause : FileFault} {path : String} (h : cause.hinders = true ∨
      Command.isRefusalOfFile cause = true ∨ cause = .missing path) :
    (loadFault path cause).structural = false ∧
      (Command.isRefusal (loadFault path cause) = true ∨
        loadFault path cause = .read cause ∧ cause.hinders = true) := by
  rcases h with h | h | rfl
  · cases cause <;> first | exact ⟨rfl, .inr ⟨rfl, rfl⟩⟩ | cases h
  · cases cause <;> first | exact ⟨rfl, .inl rfl⟩ | cases h
  · exact ⟨rfl, .inl rfl⟩

/-- A definition is refused in a mild way unless something hinders its reading. -/
theorem load_fails (hf : ¬ f.Mild R) (h : (load d p).Fails s f) :
    ∃ cause, f = .read cause ∧ cause.hinders = true := by
  rw [load, Run.fails_get_bind] at h
  split at h
  · exact (Run.fails_pure.mp h).elim
  · split at h
    · rename_i cause hread
      obtain rfl := Run.fails_throw.mp h
      obtain ⟨hstructural, hrefusal | hhinders⟩ := loadFault_spec (Disk.readMembers_kinds hread)
      · exact (hf ⟨hstructural, .inl hrefusal⟩).elim
      · exact ⟨cause, hhinders⟩
    · rw [Run.fails_modify_bind] at h
      exact (Run.fails_pure.mp h).elim

end DefinitionStore

namespace EffectLibrary

variable {d : Disk} {l l' : EffectLibrary R} {name : String} {f : Fault}

theorem findFile_fails {folders : List Route} {cause : FileFault}
    (h : findFile d name folders = .error cause) : cause.hinders = true := by
  induction folders with
  | nil => cases h
  | cons folder rest ih =>
    rcases bind_eq_error.mp h with h | ⟨found, -, h⟩
    · exact Disk.hasFile_fails h
    · cases found with
      | false => exact ih h
      | true => cases h

theorem findFile_hasFile {folders : List Route} {route : Route}
    (h : findFile d name folders = .ok (some route)) : d.hasFile route = .ok true := by
  induction folders with
  | nil => cases h
  | cons folder rest ih =>
    rw [findFile] at h
    cases hfile : d.hasFile (Route.ofPath folder (name ++ ".json")) with
    | error cause =>
      rw [hfile] at h
      cases h
    | ok found =>
      rw [hfile] at h
      cases found with
      | false => exact ih h
      | true =>
        cases h
        exact hfile

omit [Scalar R] in
theorem names_fails {cause : FileFault} (h : l.names d = .error cause) :
    cause.hinders = true := by
  rcases bind_eq_error.mp h with h | ⟨files, -, h⟩
  · generalize l.folders = folders at h
    induction folders with
    | nil => cases h
    | cons folder rest ih =>
      rw [List.mapM_cons] at h
      rcases bind_eq_error.mp h with h | ⟨first, -, h⟩
      · exact Disk.entries_fails h
      rcases bind_eq_error.mp h with h | ⟨others, -, h⟩
      · exact ih h
      · cases h
  · cases h

theorem readFile_fails {route : Route} (hf : ¬ f.Mild R) (hfile : d.hasFile route = .ok true)
    (h : readFile (R := R) d name route = .error f) :
    f = .read (.nestedTooDeep route.text) := by
  rw [readFile] at h
  split at h
  · rename_i cause hread
    obtain ⟨content, hcontent⟩ := Disk.bytes_of_hasFile hfile
    have hkinds : cause.isOfContent = true ∨ cause = .nestedTooDeep route.text := by
      rcases Disk.readMembers_fails hread with hbytes | hkinds
      · rw [hcontent] at hbytes
        cases hbytes
      · exact hkinds
    rcases hkinds with hkind | rfl
    · rw [if_pos hkind] at h
      cases h
      exact (hf ⟨rfl, .inl rfl⟩).elim
    · cases h
      rfl
  · split at h
    · cases h
      exact (hf ⟨rfl, .inl rfl⟩).elim
    · cases h

/-- An effect is refused in a mild way unless something hinders the look for its file. -/
theorem get_fails (hf : ¬ f.Mild R) (h : (get d name).Fails l f) :
    ∃ cause, f = .read cause ∧ cause.hinders = true := by
  rw [get, Run.fails_get_bind] at h
  split at h
  · exact (Run.fails_pure.mp h).elim
  rcases Run.fails_bind.mp h with h | ⟨found, l₁, hfound, h⟩
  · obtain ⟨cause, hcause, rfl⟩ := Run.fails_ofDisk.mp h
    exact ⟨cause, rfl, findFile_fails hcause⟩
  obtain ⟨hfile, rfl⟩ := Run.yields_ofDisk.mp hfound
  cases found with
  | none =>
    rcases Run.fails_bind.mp h with h | ⟨names, l₂, -, h⟩
    · obtain ⟨cause, hcause, rfl⟩ := Run.fails_ofDisk.mp h
      exact ⟨cause, rfl, names_fails hcause⟩
    · obtain rfl := Run.fails_throw.mp h
      exact (hf ⟨rfl, .inl rfl⟩).elim
  | some route =>
    rcases Run.fails_lift_bind.mp h with h | ⟨e, -, h⟩
    · exact ⟨_, readFile_fails hf (findFile_hasFile hfile) h, rfl⟩
    · rw [Run.fails_modify_bind] at h
      exact (Run.fails_pure.mp h).elim

/-- Libraries that look into the same folders and give the same. -/
structure Agrees (d : Disk) (l l' : EffectLibrary R) : Prop where
  folders : l'.folders = l.folders
  within : l'.Within d l
  gives : l.Within d l'

theorem Agrees.refl (d : Disk) (l : EffectLibrary R) : l.Agrees d l :=
  ⟨rfl, .refl d l, .refl d l⟩

theorem Agrees.trans {l'' : EffectLibrary R} (h : l.Agrees d l') (h' : l'.Agrees d l'') :
    l.Agrees d l'' :=
  ⟨h'.folders.trans h.folders, h'.within.trans h.within, h.gives.trans h'.gives⟩

theorem get_folders {e : Effect R} (h : (get d name).Yields l e l') : l'.folders = l.folders := by
  rw [get, Run.yields_get_bind] at h
  split at h
  · obtain ⟨-, rfl⟩ := Run.yields_pure.mp h
    rfl
  obtain ⟨found, l₁, hfound, h⟩ := Run.yields_bind.mp h
  obtain ⟨-, rfl⟩ := Run.yields_ofDisk.mp hfound
  cases found with
  | none =>
    obtain ⟨_, _, _, h⟩ := Run.yields_bind.mp h
    exact (Run.yields_throw.mp h).elim
  | some route =>
    obtain ⟨e₁, -, h⟩ := Run.yields_lift_bind.mp h
    rw [Run.yields_modify_bind] at h
    obtain ⟨-, rfl⟩ := Run.yields_pure.mp h
    rfl

/-- What is looked up changes nothing that the library gives. -/
theorem get_agrees {e : Effect R} (h : (get d name).Yields l e l') : l.Agrees d l' := by
  obtain ⟨hgives, hwithin⟩ := get_yields h
  obtain ⟨l'', h'', hback⟩ := get_of_gives hgives
  obtain rfl : l'' = l' := (Prod.mk.inj (h''.symm.trans h)).2
  exact ⟨get_folders h, hwithin, hback⟩

/-- Something hinders the look for an effect. -/
def Hides (d : Disk) (l : EffectLibrary R) (name : String) (f : Fault) : Prop :=
  (get d name).Fails l f ∧ ∃ cause, f = .read cause ∧ cause.hinders = true

theorem Hides.not_refusal (h : l.Hides d name f) : Command.isRefusal f = false := by
  obtain ⟨-, cause, rfl, hcause⟩ := h
  exact FileFault.not_refusal_of_hinders hcause

theorem Hides.not_mild (h : l.Hides d name f) : ¬ f.Mild R := by
  refine Fault.not_mild h.not_refusal ?_
  obtain ⟨-, cause, rfl, -⟩ := h
  exact nofun

/-- What is hidden from a library has been hidden from it before. -/
theorem Hides.of_agrees (hsame : l.Agrees d l') (hhides : l'.Hides d name f) :
    l.Hides d name f := by
  have hf := hhides.not_mild
  obtain ⟨h, hkind⟩ := hhides
  refine ⟨?_, hkind⟩
  have hnew : Members.get? name l.cache = none := by
    cases hget : Members.get? name l.cache with
    | none => rfl
    | some e =>
      obtain ⟨l'', hyields, -⟩ := get_of_gives (hsame.gives name e (.inl hget))
      have := (congrArg Prod.fst hyields).symm.trans h
      cases this
  rw [get, Run.fails_get_bind] at h ⊢
  rw [hnew]
  split at h
  · exact (Run.fails_pure.mp h).elim
  rw [hsame.folders] at h
  rcases Run.fails_bind.mp h with h | ⟨found, l₁, hfound, h⟩
  · exact Run.fails_bind.mpr (.inl h)
  obtain ⟨hfile, rfl⟩ := Run.yields_ofDisk.mp hfound
  refine Run.fails_bind.mpr (.inr ⟨found, l, Run.yields_ofDisk.mpr ⟨hfile, rfl⟩, ?_⟩)
  cases found with
  | none =>
    rcases Run.fails_bind.mp h with h | ⟨names, l₂, -, h⟩
    · obtain ⟨cause, hcause, rfl⟩ := Run.fails_ofDisk.mp h
      refine Run.fails_bind.mpr (.inl (Run.fails_ofDisk.mpr ⟨cause, ?_, rfl⟩))
      rcases bind_eq_error.mp hcause with hcause | ⟨files, -, hcause⟩
      · rw [hsame.folders] at hcause
        exact bind_eq_error.mpr (.inl hcause)
      · cases hcause
    · obtain rfl := Run.fails_throw.mp h
      exact (hf ⟨rfl, .inl rfl⟩).elim
  | some route =>
    rcases Run.fails_lift_bind.mp h with h | ⟨e, -, h⟩
    · exact Run.fails_lift_bind.mpr (.inl h)
    · rw [Run.fails_modify_bind] at h
      exact (Run.fails_pure.mp h).elim

end EffectLibrary

end Storyboard
