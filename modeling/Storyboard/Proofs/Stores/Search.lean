import Storyboard.Proofs.Ordering
import Storyboard.Proofs.Run
import Storyboard.Rational

namespace Storyboard

namespace Disk

variable {d : Disk} {route : Route} {path : String} {cause : FileFault}

theorem check_tooLong {p : String} (h : Route.check path = .error (.nameTooLong p)) : p = path := by
  rw [Route.check] at h
  split at h
  · rename_i fault hfault
    cases h
    rw [Route.fault?] at hfault
    split at hfault
    · cases hfault
    · split at hfault <;> cases hfault
  · split at h
    · cases h
      rfl
    · cases h

theorem follow_tooLong {p : String} {place : Place} {names : List String}
    (h : d.follow path place names = .error (.nameTooLong p)) : p = path := by
  induction names generalizing place with
  | nil => cases h
  | cons name rest ih =>
    rw [follow] at h
    split at h
    · split at h
      · cases h
        rfl
      · exact ih h
    · split at h <;> cases h

/-- A route is looked up unless it is too long. -/
theorem find_tooLong (h : d.find route = .error cause) : cause = .nameTooLong route.text := by
  rw [find, lookUp] at h
  split at h
  · rename_i p hcheck
    cases h
    rw [check_tooLong hcheck]
  · cases h
  · split at h
    · cases h
    · rename_i p hfollow
      cases h
      rw [follow_tooLong hfollow]
    · cases h

theorem hasFile_of_isTooLong {name : String} {rest : List String}
    (hnames : route.names = name :: rest) (hcheck : Route.check route.text = .ok ())
    (hlong : Route.isTooLong name = true) :
    d.hasFile route = .error (.nameTooLong route.text) := by
  have hroot : d.isFolder ⟨[]⟩ = true := rfl
  rw [hasFile, find, lookUp, hcheck, hnames]
  simp only [follow, hroot, hlong, ↓reduceIte]
  rfl

theorem hasFile_tooLong (h : d.hasFile route = .error cause) : cause = .nameTooLong route.text := by
  rcases bind_eq_error.mp h with h | ⟨found, -, h⟩
  · exact find_tooLong h
  · cases h

theorem entries_tooLong (h : d.entries route = .error cause) : cause = .nameTooLong route.text := by
  rcases bind_eq_error.mp h with h | ⟨found, -, h⟩
  · exact find_tooLong h
  · split at h
    · cases h
    · split at h <;> cases h

end Disk

namespace Text

theorem before_asymm (a b : String) (h : before a b = true) : before b a = false := by
  simp only [before, decide_eq_true_eq, decide_eq_false_iff_not] at h ⊢
  exact List.not_lt.mpr (List.le_of_lt h)

theorem not_before_trans (a b c : String) (hab : before a b = false)
    (hbc : before b c = false) : before a c = false := by
  simp only [before, decide_eq_false_iff_not, List.not_lt] at hab hbc ⊢
  exact List.le_trans hbc hab

/-- Characters that keep code points. -/
def Keeping (s : String) : Prop := ∃ ps, (∀ p ∈ ps, IsPoint p) ∧ s = ofPoints ps

/-- Of two different texts one comes before the other. -/
theorem Keeping.before_of_not {a b : String} (ha : Keeping a) (hb : Keeping b) (hne : a ≠ b)
    (h : before b a = false) : before a b = true := by
  obtain ⟨ps, hps, rfl⟩ := ha
  obtain ⟨qs, hqs, rfl⟩ := hb
  simp only [before, pointsOf_ofPoints hps, pointsOf_ofPoints hqs, decide_eq_true_eq,
    decide_eq_false_iff_not, List.not_lt] at h ⊢
  rcases List.le_iff_lt_or_eq.mp h with hlt | heq
  · exact hlt
  · exact absurd (congrArg ofPoints heq) hne

end Text

namespace EffectLibrary

variable {R : Type} [Scalar R]

/-- The path of the file of an effect in a folder. -/
def fileIn (name : String) (folder : Route) : Route := Route.ofPath folder (name ++ ".json")

/-- The first folder of some in which it is not so that the file of an effect is not there. -/
def Stops (d : Disk) (name : String) (folders : List Route) (folder : Route)
    (found : Except FileFault Bool) : Prop :=
  ∃ earlier later, folders = earlier ++ folder :: later ∧
    (∀ f ∈ earlier, d.hasFile (fileIn name f) = .ok false) ∧ d.hasFile (fileIn name folder) = found

section

variable {d : Disk} {name : String} {folder : Route} {folders : List Route}

theorem Stops.cons {first : Route} {found : Except FileFault Bool}
    (h : Stops d name folders folder found) (hfirst : d.hasFile (fileIn name first) = .ok false) :
    Stops d name (first :: folders) folder found := by
  obtain ⟨earlier, later, rfl, hearlier, hfolder⟩ := h
  exact ⟨first :: earlier, later, rfl, List.forall_mem_cons.mpr ⟨hfirst, hearlier⟩, hfolder⟩

theorem Stops.found_eq {found : Except FileFault Bool} (h : Stops d name folders folder found) :
    d.hasFile (fileIn name folder) = found := by
  obtain ⟨earlier, later, -, -, hfolder⟩ := h
  exact hfolder

theorem findFile_cons (first : Route) (rest : List Route) :
    findFile d name (first :: rest) =
      match d.hasFile (fileIn name first) with
      | .ok true => .ok (some (fileIn name first))
      | .ok false => findFile d name rest
      | .error cause => .error cause := by
  change (do
    if ← d.hasFile (fileIn name first) then return some (fileIn name first)
    else findFile d name rest) = _
  rcases d.hasFile (fileIn name first) with cause | _ | _ <;> rfl

theorem Stops.findFile_eq {found : Except FileFault Bool} (h : Stops d name folders folder found)
    (hfound : found ≠ .ok false) :
    findFile d name folders = found.map fun _ => some (fileIn name folder) := by
  obtain ⟨earlier, later, rfl, hearlier, hfolder⟩ := h
  induction earlier with
  | nil =>
    rw [List.nil_append, findFile_cons, hfolder]
    rcases found with cause | _ | _
    · rfl
    · exact absurd rfl hfound
    · rfl
  | cons first earlier ih =>
    obtain ⟨hfirst, hearlier⟩ := List.forall_mem_cons.mp hearlier
    rw [List.cons_append, findFile_cons, hfirst]
    exact ih hearlier

/-- The folders are looked through in order, up to the first one that has the file or refuses the
look. -/
theorem findFile_spec (d : Disk) (name : String) (folders : List Route) :
    (∃ folder, Stops d name folders folder (.ok true) ∧
      findFile d name folders = .ok (some (fileIn name folder))) ∨
    (∃ folder cause, Stops d name folders folder (.error cause) ∧
      findFile d name folders = .error cause) ∨
    (∀ folder ∈ folders, d.hasFile (fileIn name folder) = .ok false) ∧
      findFile d name folders = .ok none := by
  induction folders with
  | nil => exact .inr (.inr ⟨by simp, rfl⟩)
  | cons first rest ih =>
    rw [findFile_cons]
    rcases hfile : d.hasFile (fileIn name first) with cause | _ | _
    · exact .inr (.inl ⟨first, cause, ⟨[], rest, rfl, by simp, hfile⟩, rfl⟩)
    · rcases ih with ⟨folder, hstops, hfound⟩ | ⟨folder, cause, hstops, hfound⟩ | ⟨hnone, hfound⟩
      · exact .inl ⟨folder, hstops.cons hfile, hfound⟩
      · exact .inr (.inl ⟨folder, cause, hstops.cons hfile, hfound⟩)
      · exact .inr (.inr ⟨List.forall_mem_cons.mpr ⟨hfile, hnone⟩, hfound⟩)
    · exact .inl ⟨first, ⟨[], rest, rfl, by simp, hfile⟩, rfl⟩

end

section

variable {names : List String} {name : String}

theorem distinct_spec (names : List String) :
    (distinct names).Nodup ∧ ∀ name, name ∈ distinct names ↔ name ∈ names := by
  have hfold {seen : List String} (hseen : seen.Nodup) :
      let found := names.foldl (fun seen n => if seen.contains n then seen else seen ++ [n]) seen
      found.Nodup ∧ ∀ name, name ∈ found ↔ name ∈ seen ∨ name ∈ names := by
    induction names generalizing seen with
    | nil => exact ⟨hseen, by simp⟩
    | cons n rest ih =>
      simp only [List.foldl_cons]
      split
      · rename_i hold
        have hold : n ∈ seen := by simpa using hold
        obtain ⟨hnodup, hmem⟩ := ih hseen
        refine ⟨hnodup, fun name => ?_⟩
        rw [hmem, List.mem_cons]
        constructor
        · exact Or.imp_right .inr
        · rintro (h | rfl | h)
          · exact .inl h
          · exact .inl hold
          · exact .inr h
      · rename_i hnew
        have hnew : n ∉ seen := by simpa using hnew
        have hseen : (seen ++ [n]).Nodup := by
          refine List.nodup_append.mpr ⟨hseen, by simp, fun a ha b hb he => hnew ?_⟩
          obtain rfl := List.mem_singleton.mp hb
          exact he ▸ ha
        obtain ⟨hnodup, hmem⟩ := ih hseen
        refine ⟨hnodup, fun name => ?_⟩
        rw [hmem, List.mem_append, List.mem_singleton, List.mem_cons, or_assoc]
  obtain ⟨hnodup, hmem⟩ := hfold List.nodup_nil
  exact ⟨hnodup, fun name => (hmem name).trans (by simp)⟩

/-- Names that are all different, each coming before those behind it. -/
def Increasing (names : List String) : Prop :=
  names.Pairwise fun a b => a ≠ b ∧ (Text.Keeping a → Text.Keeping b → Text.before a b = true)

theorem increasing_sort_distinct (names : List String) :
    Increasing (Order.sort Text.before (distinct names)) := by
  have hnodup := (Order.sort_perm Text.before _).nodup_iff.mpr (distinct_spec names).1
  have hsorted := Order.sort_pairwise Text.before_asymm Text.not_before_trans (distinct names)
  refine (hsorted.and hnodup).imp fun hab => ?_
  exact ⟨hab.2, fun ha hb => ha.before_of_not hb hab.2 hab.1⟩

omit [Scalar R] in
theorem names_eq_ok {d : Disk} {l : EffectLibrary R} (h : l.names d = .ok names) :
    Increasing names ∧ ∀ name ∈ l.cache.map Prod.fst, name ∈ names := by
  rw [EffectLibrary.names] at h
  cases hfiles : l.folders.mapM d.entries with
  | error cause =>
    rw [hfiles] at h
    cases h
  | ok files =>
    rw [hfiles] at h
    obtain rfl := Except.ok.inj h
    refine ⟨increasing_sort_distinct _, fun name hname => ?_⟩
    refine (Order.sort_perm Text.before _).mem_iff.mpr (((distinct_spec _).2 name).mpr ?_)
    exact List.mem_append_left _ hname

omit [Scalar R] in
theorem names_eq_error {d : Disk} {l : EffectLibrary R} {cause : FileFault}
    (h : l.names d = .error cause) :
    ∃ folder ∈ l.folders, d.entries folder = .error cause := by
  rcases bind_eq_error.mp h with h | ⟨files, -, h⟩
  · generalize l.folders = folders at h
    induction folders with
    | nil => cases h
    | cons folder rest ih =>
      rw [List.mapM_cons] at h
      rcases bind_eq_error.mp h with h | ⟨first, -, h⟩
      · exact ⟨folder, List.mem_cons_self, h⟩
      rcases bind_eq_error.mp h with h | ⟨others, -, h⟩
      · obtain ⟨other, hother, h⟩ := ih h
        exact ⟨other, List.mem_cons_of_mem _ hother, h⟩
      · cases h
  · cases h

end

section

variable {d : Disk} {name : String} {l : EffectLibrary R} {e : Effect R} {route : Route}
  {cause : FileFault} {f : Fault}

theorem exec_register (name : String) (definition : Json R) (l : EffectLibrary R) :
    (register name definition).exec l =
      match readDocument Effect.codec definition with
      | .ok e => (.ok e, put name e l)
      | .error f => (.error f, l) := by
  rw [register, Run.exec_lift_bind]
  cases readDocument Effect.codec definition with
  | ok e => exact Run.exec_modify_bind _ _ _
  | error f => rfl

theorem get_hit (h : Members.get? name l.cache = some e) : (get d name).exec l = (.ok e, l) := by
  rw [get, Run.exec_get_bind, h]
  rfl

theorem get_found (h : Members.get? name l.cache = none)
    (hfile : findFile d name l.folders = .ok (some route)) :
    (get d name).exec l =
      match readFile d name route with
      | .ok e => (.ok e, put name e l)
      | .error f => (.error f, l) := by
  rw [get, Run.exec_get_bind, h]
  simp only [hfile, Run.exec_ofDisk_bind, Run.exec_lift_bind]
  cases readFile (R := R) d name route with
  | ok e => exact Run.exec_modify_bind _ _ _
  | error f => rfl

theorem get_blocked (h : Members.get? name l.cache = none)
    (hfile : findFile d name l.folders = .error cause) :
    (get d name).exec l = (.error (.read cause), l) := by
  rw [get, Run.exec_get_bind, h]
  simp only [hfile, Run.exec_ofDisk_bind]

theorem get_missing (h : Members.get? name l.cache = none)
    (hfile : findFile d name l.folders = .ok none) :
    (get d name).exec l =
      match l.names d with
      | .ok names => (.error (.effectNotFound name names), l)
      | .error cause => (.error (.read cause), l) := by
  rw [get, Run.exec_get_bind, h]
  simp only [hfile, Run.exec_ofDisk_bind]
  cases l.names d with
  | ok names => rfl
  | error cause => rfl

/-- A refused get leaves the library as it is. -/
theorem get_refused (h : ((get d name).exec l).1 = .error f) : ((get d name).exec l).2 = l := by
  cases hget : Members.get? name l.cache with
  | some e => rw [get_hit hget]
  | none =>
    rcases findFile_spec d name l.folders with ⟨folder, -, hfile⟩ | ⟨folder, cause, -, hfile⟩ |
      ⟨-, hfile⟩
    · rw [get_found hget hfile] at h ⊢
      cases hread : readFile (R := R) d name (fileIn name folder) with
      | ok e =>
        rw [hread] at h
        cases h
      | error g => rfl
    · rw [get_blocked hget hfile]
    · rw [get_missing hget hfile]
      cases l.names d <;> rfl

/-- A get that is answered leaves the library as it is, or with the answer under its name. -/
theorem get_answered (h : ((get d name).exec l).1 = .ok e) :
    Members.get? name l.cache = some e ∧ ((get d name).exec l).2 = l ∨
      Members.get? name l.cache = none ∧ ((get d name).exec l).2 = put name e l ∧
        ∃ folder, Stops d name l.folders folder (.ok true) ∧
          readFile d name (fileIn name folder) = .ok e := by
  cases hget : Members.get? name l.cache with
  | some kept =>
    rw [get_hit hget] at h ⊢
    exact .inl ⟨congrArg some (Except.ok.inj h), rfl⟩
  | none =>
    rcases findFile_spec d name l.folders with ⟨folder, hstops, hfile⟩ | ⟨folder, cause, -, hfile⟩ |
      ⟨-, hfile⟩
    · rw [get_found hget hfile] at h ⊢
      cases hread : readFile (R := R) d name (fileIn name folder) with
      | ok found =>
        rw [hread] at h
        obtain rfl := Except.ok.inj h
        exact .inr ⟨rfl, rfl, folder, hstops, hread⟩
      | error g =>
        rw [hread] at h
        cases h
    · rw [get_blocked hget hfile] at h
      cases h
    · rw [get_missing hget hfile] at h
      cases hnames : l.names d <;> rw [hnames] at h <;> cases h

end

theorem readFile_eq_error {d : Disk} {name : String} {route : Route} {f : Fault}
    (h : readFile (R := R) d name route = .error f) : ∀ names, f ≠ .effectNotFound name names := by
  intro names he
  subst he
  unfold readFile at h
  dsimp only at h
  split at h
  · split at h <;> cases h
  · split at h <;> cases h

/-- How a name is looked up that a library holds nothing for: in the file of the first folder that
has one, unless the path of the file in a folder before it is too long. Only if no folder has the
file, the effect is not found. -/
def LooksUp (d : Disk) (l : EffectLibrary R) (name : String) : Prop :=
  (∃ folder, Stops d name l.folders folder (.ok true) ∧
    match readFile d name (fileIn name folder) with
    | .ok e => ((get d name).exec l).1 = .ok e
    | .error f => (get d name).exec l = (.error f, l) ∧ ∀ names, f ≠ .effectNotFound name names) ∨
  (∃ folder cause, Stops d name l.folders folder (.error cause) ∧
    cause = .nameTooLong (fileIn name folder).text ∧
    (get d name).exec l = (.error (.read cause), l)) ∨
  (∀ folder ∈ l.folders, d.hasFile (fileIn name folder) = .ok false) ∧
    match l.names d with
    | .ok names => (get d name).exec l = (.error (.effectNotFound name names), l)
    | .error cause => (get d name).exec l = (.error (.read cause), l)

theorem get_fresh {d : Disk} {l : EffectLibrary R} {name : String}
    (h : Members.get? name l.cache = none) : LooksUp d l name := by
  rcases findFile_spec d name l.folders with ⟨folder, hstops, hfile⟩ |
    ⟨folder, cause, hstops, hfile⟩ | ⟨hnone, hfile⟩
  · refine .inl ⟨folder, hstops, ?_⟩
    rw [get_found h hfile]
    cases hread : readFile (R := R) d name (fileIn name folder) with
    | ok e => rfl
    | error f => exact ⟨rfl, readFile_eq_error hread⟩
  · exact .inr (.inl ⟨folder, cause, hstops, Disk.hasFile_tooLong hstops.found_eq,
      get_blocked h hfile⟩)
  · refine .inr (.inr ⟨hnone, ?_⟩)
    rw [get_missing h hfile]
    cases l.names d <;> rfl

/-- A name that is one byte too long. -/
def longName : List Char := List.replicate (Route.maxNameSize + 1) 'a'

def longFolder : Route := ⟨false, [String.ofList longName]⟩

def plainFolder : Route := ⟨false, ["b"]⟩

/-- A disk with an effect in the folder without the long name. -/
def poppingDisk : Disk :=
  Disk.empty.writeJson (R := Rat) ⟨["b", "pop.json"]⟩
    (.obj [("duration", .int 1), ("properties", .obj [])])

theorem fileIn_longFolder :
    fileIn "pop" longFolder = ⟨false, [String.ofList longName, "pop.json"]⟩ := by
  have hnames : Route.namesOf "pop.json" = ["pop.json"] := by decide
  have hrelative : Route.isAbsolute "pop.json" = false := by decide
  simp [fileIn, Route.ofPath, hnames, hrelative, longFolder]

theorem check_longFolder : Route.check (fileIn "pop" longFolder).text = .ok () := by
  -- Sizes are counted on lists of characters, which is cheaper than on texts.
  have htext : (fileIn "pop" longFolder).text.toList = '/' :: (longName ++ "/pop.json".toList) := by
    rw [fileIn_longFolder]
    simp [Route.text, Route.lead, String.toList_append]
  rw [Route.check, Route.fault?, FileName.isEncodable, FileName.size, FileName.bytes?,
    Text.pointsOf, htext]
  decide +kernel

theorem isTooLong_longName : Route.isTooLong (String.ofList longName) = true := by
  rw [Route.isTooLong, FileName.size, FileName.bytes?, Text.pointsOf, String.toList_ofList]
  decide +kernel

/-- The effect is not found in the folder that has it, since another one is looked into first. -/
theorem long_folder_hinders :
    poppingDisk.hasFile (fileIn "pop" plainFolder) = .ok true ∧
      (readFile (R := Rat) poppingDisk "pop" (fileIn "pop" plainFolder)).toOption.isSome = true ∧
      (get poppingDisk "pop").Fails (ofFolders (R := Rat) [longFolder, plainFolder])
        (.read (.nameTooLong (fileIn "pop" longFolder).text)) := by
  refine ⟨by decide +kernel, by decide +kernel, ?_⟩
  have hstops : Stops poppingDisk "pop" [longFolder, plainFolder] longFolder
      (.error (.nameTooLong (fileIn "pop" longFolder).text)) :=
    ⟨[], [plainFolder], rfl, by simp, Disk.hasFile_of_isTooLong
      (congrArg Route.names fileIn_longFolder) check_longFolder isTooLong_longName⟩
  exact congrArg Prod.fst (get_blocked (l := ofFolders [longFolder, plainFolder]) rfl
    (hstops.findFile_eq (by simp)))

end EffectLibrary

end Storyboard
