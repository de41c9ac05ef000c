import Storyboard.Proofs.Flattening.Completion
import Storyboard.Proofs.Flattening.Muted

namespace Storyboard

section

variable {α : Type} (below : α → List α) (rebuild : α → List α → α)

/-- The list in which what stands at a position is changed. -/
def changeDown (f : α → α) : List α → List Nat → List α
  | xs, [] => xs
  | xs, [i] => xs.modify i f
  | xs, i :: j :: p => xs.modify i fun x => rebuild x (changeDown f (below x) (j :: p))

theorem modify_of_getElem? {xs : List α} {i : Nat} {x : α} (h : xs[i]? = some x) :
    ∃ before behind, xs = before ++ x :: behind ∧ before.length = i ∧
      ∀ f : α → α, xs.modify i f = before ++ f x :: behind := by
  obtain ⟨hi, rfl⟩ := List.getElem?_eq_some_iff.mp h
  refine ⟨xs.take i, xs.drop (i + 1), ?_, List.length_take_of_le (Nat.le_of_lt hi), fun f => ?_⟩
  · rw [← List.drop_eq_getElem_cons hi, List.take_append_drop]
  · exact List.modify_eq_take_cons_drop hi

end

variable {R : Type}

namespace Object

/-- The object with other children, if it can hold any. -/
def withChildren : Object R → List (Object R) → Object R
  | group b _ info e, cs => group b cs info e
  | o, _ => o

@[simp] theorem base_withChildren (o : Object R) (cs : List (Object R)) :
    (o.withChildren cs).base = o.base := by
  cases o <;> rfl

@[simp] theorem groupInfo_withChildren (o : Object R) (cs : List (Object R)) :
    (o.withChildren cs).groupInfo = o.groupInfo := by
  cases o <;> rfl

theorem children_withChildren {o : Object R} (h : o.children ≠ []) (cs : List (Object R)) :
    (o.withChildren cs).children = cs := by
  cases o with
  | group b children info e => rfl
  | shape b s e | reference b r e => exact absurd rfl h

theorem muted_withChildren {o : Object R} {cs : List (Object R)}
    (h : mutedAll cs = mutedAll o.children) : (o.withChildren cs).muted = o.muted := by
  cases o with
  | group b children info e =>
    rw [withChildren, muted, h]
    rfl
  | shape b s e | reference b r e => rfl

/-- The tree in which the object at a position is changed. -/
abbrev changed (f : Object R → Object R) (objects : List (Object R)) (p : List Nat) :
    List (Object R) :=
  changeDown children withChildren f objects p

/-- A change that leaves all but animations alone is not to be seen in the tree without them. -/
theorem mutedAll_changed {f : Object R → Object R} {objects front : List (Object R)} {p : List Nat}
    {o : Object R} (hway : way objects p = some (front ++ [o])) (hf : (f o).muted = o.muted) :
    mutedAll (changed f objects p) = mutedAll objects := by
  induction p generalizing objects front with
  | nil => simp [way] at hway
  | cons i p ih =>
    have hmodify {x : Object R} (hx : objects[i]? = some x) {g : Object R → Object R}
        (hg : (g x).muted = x.muted) : mutedAll (objects.modify i g) = mutedAll objects := by
      obtain ⟨before, behind, rfl, -, hmodify⟩ := modify_of_getElem? hx
      simp only [hmodify, mutedAll_eq_map, List.map_append, List.map_cons, hg]
    rcases (wayDown_cons_eq_append _).mp hway with ⟨rfl, rfl, ho⟩ | ⟨x, rest, rfl, hx, hrest⟩
    · exact hmodify ho hf
    · cases p with
      | nil => simp at hrest
      | cons j p => exact hmodify hx (muted_withChildren (ih hrest))

end Object

namespace Flattening

theorem sourcesFrom_append (position : List Nat) (way : List (Object R)) (i : Nat)
    (xs ys : List (Object R)) : sourcesFrom position way i (xs ++ ys) =
      sourcesFrom position way i xs ++ sourcesFrom position way (i + xs.length) ys := by
  induction xs generalizing i with
  | nil => rfl
  | cons x xs ih =>
    rw [List.cons_append, sourcesFrom, sourcesFrom, ih, List.append_assoc, List.length_cons,
      Nat.add_assoc, Nat.add_comm 1]

/-- Where one object of a list is changed, the sources in the others stay what they are. -/
theorem sourcesFrom_modify {objects : List (Object R)} {i : Nat} {o : Object R}
    (ho : objects[i]? = some o) {f : Object R → Object R} {position : List Nat}
    {way way' : List (Object R)} (hways : way'.map Object.muted = way.map Object.muted) {k : Nat}
    {part more : List (Source R)} (pre post : List (Source R))
    (h : (sources (position ++ [k + i]) way o).map Source.muted = pre ++ part ++ post)
    (hf : (sources (position ++ [k + i]) way' (f o)).map Source.muted = pre ++ more ++ post) :
    ∃ pre' post', (sourcesFrom position way k objects).map Source.muted = pre' ++ part ++ post' ∧
      (sourcesFrom position way' k (objects.modify i f)).map Source.muted =
        pre' ++ more ++ post' := by
  obtain ⟨before, behind, rfl, rfl, hmodify⟩ := modify_of_getElem? ho
  refine ⟨(sourcesFrom position way k before).map Source.muted ++ pre,
    post ++ (sourcesFrom position way (k + before.length + 1) behind).map Source.muted, ?_, ?_⟩
  · rw [sourcesFrom_append, sourcesFrom, List.map_append, List.map_append, h]
    simp only [List.append_assoc]
  · rw [hmodify, sourcesFrom_append, sourcesFrom, List.map_append, List.map_append, hf,
      map_muted_sourcesFrom hways, map_muted_sourcesFrom hways]
    simp only [List.append_assoc]

theorem Source.muted_congr {position : List Nat} {way way' : List (Object R)} {cause : Cause R}
    (h : way'.map Object.muted = way.map Object.muted) :
    Source.muted ⟨position, way', cause⟩ = Source.muted ⟨position, way, cause⟩ := by
  rw [Source.muted, Source.muted, h]

theorem map_muted_sources (position : List Nat) (way : List (Object R)) (o : Object R) :
    (sources position way o).map Source.muted =
      (sourcesFrom position (way ++ [o]) 0 o.children).map Source.muted ++
        (ownCauses o.base o.groupInfo).map fun c => Source.muted ⟨position, way ++ [o], c⟩ := by
  rw [sources_eq, List.map_append]
  simp [Function.comp_def]

section

variable {o o' : Object R} {way way' : List (Object R)} (hmuted : o'.muted = o.muted)
  (hways : way'.map Object.muted = way.map Object.muted)

include hmuted hways

theorem map_muted_concat :
    (way' ++ [o']).map Object.muted = (way ++ [o]).map Object.muted := by
  simp [hways, hmuted]

/-- An object that declares some other causes in the place of one has the sources of these in the
place of that. -/
theorem sources_replaced (hchildren : o'.children = o.children)
    {before behind more : List (Cause R)} {cause : Cause R}
    (hcauses : ownCauses o.base o.groupInfo = before ++ [cause] ++ behind)
    (hmore : ownCauses o'.base o'.groupInfo = before ++ more ++ behind) (position : List Nat) :
    ∃ pre post,
      (sources position way o).map Source.muted =
        pre ++ [Source.muted ⟨position, way ++ [o], cause⟩] ++ post ∧
      (sources position way' o').map Source.muted =
        pre ++ more.map (fun c => Source.muted ⟨position, way ++ [o], c⟩) ++ post := by
  have hlast := map_muted_concat hmuted hways
  refine ⟨(sourcesFrom position (way ++ [o]) 0 o.children).map Source.muted ++
      before.map fun c => Source.muted ⟨position, way ++ [o], c⟩,
    behind.map fun c => Source.muted ⟨position, way ++ [o], c⟩, ?_, ?_⟩
  · rw [map_muted_sources, hcauses]
    simp
  · rw [map_muted_sources, hmore, hchildren, map_muted_sourcesFrom hlast]
    simp [Source.muted_congr hlast]

/-- What is replaced in the sources of the children is replaced in those of the object. -/
theorem sources_below (hbase : o'.base = o.base) (hinfo : o'.groupInfo = o.groupInfo)
    {position : List Nat} {part more pre post : List (Source R)}
    (h : (sourcesFrom position (way ++ [o]) 0 o.children).map Source.muted = pre ++ part ++ post)
    (h' : (sourcesFrom position (way' ++ [o']) 0 o'.children).map Source.muted =
      pre ++ more ++ post) :
    ∃ post', (sources position way o).map Source.muted = pre ++ part ++ post' ∧
      (sources position way' o').map Source.muted = pre ++ more ++ post' := by
  refine ⟨post ++ (ownCauses o.base o.groupInfo).map fun c =>
    Source.muted ⟨position, way ++ [o], c⟩, ?_, ?_⟩
  · rw [map_muted_sources, h, List.append_assoc _ post]
  · rw [map_muted_sources, h', hbase, hinfo, List.append_assoc _ post]
    simp only [Source.muted_congr (map_muted_concat hmuted hways)]

end

/-- If an object declares some other causes in the place of one, so do the sources of the tree. -/
theorem sourcesFrom_changed {f : Object R → Object R} {objects front : List (Object R)} {i : Nat}
    {p : List Nat} {o : Object R} (hway : Object.way objects (i :: p) = some (front ++ [o]))
    (hmuted : (f o).muted = o.muted) (hchildren : (f o).children = o.children)
    {before behind more : List (Cause R)} {cause : Cause R}
    (hcauses : ownCauses o.base o.groupInfo = before ++ [cause] ++ behind)
    (hmore : ownCauses (f o).base (f o).groupInfo = before ++ more ++ behind)
    {way way' : List (Object R)} (hways : way'.map Object.muted = way.map Object.muted)
    (position : List Nat) (k : Nat) : ∃ pre post,
      (sourcesFrom position way k objects).map Source.muted =
        pre ++ [Source.muted ⟨position ++ (k + i) :: p, way ++ (front ++ [o]), cause⟩] ++ post ∧
      (sourcesFrom position way' k (Object.changed f objects (i :: p))).map Source.muted =
        pre ++ more.map (fun c =>
          Source.muted ⟨position ++ (k + i) :: p, way ++ (front ++ [o]), c⟩) ++ post := by
  induction p generalizing objects front i way way' position k with
  | nil =>
    obtain ⟨rfl, ho⟩ : front = [] ∧ objects[i]? = some o := by
      simpa [wayDown_cons_eq_append] using hway
    obtain ⟨pre, post, hpart, hother⟩ :=
      sources_replaced hmuted hways hchildren hcauses hmore (position ++ [k + i])
    exact sourcesFrom_modify ho hways pre post hpart hother
  | cons j p ih =>
    rcases (wayDown_cons_eq_append _).mp hway with ⟨hnil, -, -⟩ | ⟨x, rest, rfl, hx, hrest⟩
    · cases hnil
    have hne : x.children ≠ [] := below_ne_nil_of_wayDown _ hway List.mem_cons_self
    have hx' : (x.withChildren (Object.changed f x.children (j :: p))).muted = x.muted :=
      Object.muted_withChildren (Object.mutedAll_changed hrest hmuted)
    obtain ⟨pre, post, hpart, hother⟩ :=
      ih hrest (map_muted_concat hx' hways) (position ++ [k + i]) 0
    have hposition : position ++ [k + i] ++ (0 + j) :: p = position ++ (k + i) :: j :: p := by
      simp
    have hdown : way ++ [x] ++ (rest ++ [o]) = way ++ (x :: rest ++ [o]) := by
      simp
    rw [hposition, hdown] at hpart hother
    obtain ⟨post', hpart', hother'⟩ := sources_below hx' hways (Object.base_withChildren _ _)
      (Object.groupInfo_withChildren _ _) hpart (by rwa [Object.children_withChildren hne])
    exact sourcesFrom_modify (f := fun x => x.withChildren (Object.changed f x.children (j :: p))) hx
      hways pre post' hpart' hother'

/-- If an object declares some other causes in the place of one, so do the sources of the document. -/
theorem sourcesOfAll_changed {f : Object R → Object R} {objects front : List (Object R)}
    {p : List Nat} {o : Object R} (hway : Object.way objects p = some (front ++ [o]))
    (hmuted : (f o).muted = o.muted) (hchildren : (f o).children = o.children)
    {before behind more : List (Cause R)} {cause : Cause R}
    (hcauses : ownCauses o.base o.groupInfo = before ++ [cause] ++ behind)
    (hmore : ownCauses (f o).base (f o).groupInfo = before ++ more ++ behind)
    (entries : List (Entry R)) : ∃ pre post,
      (sourcesOfAll objects entries).map Source.muted =
        pre ++ [Source.mk p (front ++ [o]) cause].map Source.muted ++ post ∧
      (sourcesOfAll (Object.changed f objects p) entries).map Source.muted =
        pre ++ (more.map (Source.mk p (front ++ [o]))).map Source.muted ++ post := by
  cases p with
  | nil => simp [Object.way] at hway
  | cons i p =>
    have hroot : ([] : List (Object R)).map Object.muted = [].map Object.muted := rfl
    obtain ⟨pre, post, hpart, hother⟩ :=
      sourcesFrom_changed hway hmuted hchildren hcauses hmore hroot [] 0
    rw [List.nil_append, List.nil_append, Nat.zero_add] at hpart hother
    refine ⟨entries.map (fun e => Source.muted ⟨[], [], .entry e⟩) ++ pre, post, ?_, ?_⟩
    · rw [sourcesOfAll, List.map_append, hpart]
      simp [Function.comp_def]
    · rw [sourcesOfAll, List.map_append, hother]
      simp [Function.comp_def]

section

variable [Scalar R] {d : Disk} {library library' : EffectLibrary R} {fps : Number R}
  {root : TimeScope R} {objects objects' : List (Object R)}

namespace EmittedBy

theorem muted_iff {srcs : List (Source R)} {tracks : List (Track R)} :
    EmittedBy d library fps root (Object.mutedAll objects) (srcs.map Source.muted) tracks ↔
      EmittedBy d library fps root objects srcs tracks := by
  refine exists_congr fun outs => and_congr_right fun _ => ?_
  rw [List.forall₂_map_left_iff]
  simp only [Source.emits_muted]

/-- Sources with one track each. -/
theorem of_single {srcs : List (Source R)} {tracks : List (Track R)}
    (h : List.Forall₂ (fun src t => src.Emits d library fps root objects [t]) srcs tracks) :
    EmittedBy d library fps root objects srcs tracks := by
  refine ⟨tracks.map fun t => [t], ?_, List.forall₂_map_right_iff.mpr h⟩
  rw [← List.flatMap_def, List.flatMap_singleton']

theorem single_iff {src : Source R} {tracks : List (Track R)} :
    EmittedBy d library fps root objects [src] tracks ↔
      src.Emits d library fps root objects tracks := by
  constructor
  · intro h
    obtain ⟨outs, rfl, hall⟩ := h
    obtain ⟨out, rest, hout, hrest, rfl⟩ := List.forall₂_cons_left_iff.mp hall
    obtain rfl := List.forall₂_nil_left_iff.mp hrest
    simpa using hout
  · intro h
    exact ⟨[tracks], by simp, .cons h .nil⟩

theorem replace {pre part more post : List (Source R)} {tracks : List (Track R)}
    (h : EmittedBy d library fps root objects (pre ++ part ++ post) tracks)
    (hmore : ∀ out, EmittedBy d library fps root objects part out →
      EmittedBy d library fps root objects more out) :
    EmittedBy d library fps root objects (pre ++ more ++ post) tracks := by
  obtain ⟨front, last, rfl, hfront, hlast⟩ := h.of_append
  obtain ⟨first, middle, rfl, hfirst, hmiddle⟩ := hfront.of_append
  exact (hfirst.append (hmore middle hmiddle)).append hlast

theorem unique {srcs : List (Source R)} {tracks others : List (Track R)}
    (h : EmittedBy d library fps root objects srcs tracks)
    (h' : EmittedBy d library fps root objects srcs others) : tracks = others := by
  obtain ⟨outs, rfl, hall⟩ := h
  obtain ⟨outs', rfl, hall'⟩ := h'
  have hsame : outs = outs' := forall₂_unique (fun _ _ _ hx hy => hx.unique hy) hall hall'
  rw [hsame]

end EmittedBy

/-- A tree that has an absolute form in which no path occurs twice flattens to the tracks of its
sources. -/
theorem flatten_of_emitted {entries : List (Entry R)} {speed : Option (Number R)}
    {compiled : List (Object R)} {tracks : List (Track R)}
    (hcompiled : absoluteAll fps Level.root (TimeScope.root speed) objects = .ok compiled)
    (hnodup : (Address.ids compiled).Nodup)
    (h : EmittedBy d library fps (TimeScope.root speed) objects (sourcesOfAll objects entries)
      tracks) :
    ∃ library', (flatten d fps objects entries speed).Yields library (compiled, tracks)
      library' := by
  have hemits : ∀ src ∈ sourcesOfAll objects entries, ∃ out,
      src.Emits d library fps (TimeScope.root speed) objects out := by
    intro src hsrc
    obtain ⟨outs, -, hall⟩ := h
    obtain ⟨out, -, hout⟩ := exists_related_of_mem hall.flip hsrc
    exact ⟨out, hout⟩
  obtain ⟨tracks', library', hyields⟩ := flatten_yields_iff.mpr ⟨hcompiled, hnodup, hemits⟩
  obtain rfl := h.unique (flatten_yields hyields).2.2
  exact ⟨library', hyields⟩

/-- Replacing a source by others with the same tracks changes nothing in the flattened tree. -/
theorem flatten_replaced {entries entries' : List (Entry R)} {speed : Option (Number R)}
    {compiled : List (Object R)} {tracks : List (Track R)} {pre part more post : List (Source R)}
    (h : (flatten d fps objects entries speed).Yields library (compiled, tracks) library')
    (hobjects : Object.mutedAll objects' = Object.mutedAll objects)
    (hpart : (sourcesOfAll objects entries).map Source.muted = pre ++ part.map Source.muted ++ post)
    (hother : (sourcesOfAll objects' entries').map Source.muted =
      pre ++ more.map Source.muted ++ post)
    (hmore : ∀ out, EmittedBy d library fps (TimeScope.root speed) objects part out →
      EmittedBy d library fps (TimeScope.root speed) objects more out) :
    ∃ library'', (flatten d fps objects' entries' speed).Yields library (compiled, tracks)
      library'' := by
  obtain ⟨hcompiled, hnodup, hemitted⟩ := flatten_yields h
  refine flatten_of_emitted ?_ hnodup (EmittedBy.muted_iff.mp ?_)
  · rw [← absoluteAll_mutedAll, hobjects, absoluteAll_mutedAll, hcompiled]
  · have hmuted := EmittedBy.muted_iff.mpr hemitted
    rw [hpart] at hmuted
    rw [hobjects, hother]
    exact hmuted.replace fun out hout =>
      EmittedBy.muted_iff.mpr (hmore out (EmittedBy.muted_iff.mp hout))

end

end Flattening

end Storyboard
