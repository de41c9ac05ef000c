import Storyboard.Compilation
import Storyboard.Proofs.Address
import Storyboard.Proofs.Run
import Storyboard.Rational

namespace Storyboard

variable {R : Type} [Scalar R]

namespace Object

variable {settings : Settings R} {measurer : Measurer R}

/-- Objects that agree in their ids and in what they declare as groups. -/
structure Alike (o o' : Object R) : Prop where
  id : o'.id = o.id
  groupInfo : o'.groupInfo = o.groupInfo

omit [Scalar R] in
theorem Alike.withClip {o : Object R} (clip : Option (Clip R)) : Alike o (o.withClip clip) := by
  cases o <;> exact ⟨rfl, rfl⟩

theorem resolveClip_eq_ok {o o' : Object R} (h : resolveClip settings measurer o = .ok o') :
    ∃ clip, o' = o.withClip clip := by
  rw [resolveClip] at h
  split at h
  · rename_i hclip
    cases h
    refine ⟨none, ?_⟩
    rw [withClip, ← hclip]
    cases o <;> rfl
  · obtain ⟨size, -, h⟩ := Outcome.bind_eq_ok.mp h
    obtain ⟨c, -, h⟩ := Outcome.bind_eq_ok.mp h
    rw [Outcome.pure_eq_ok] at h
    exact ⟨some c, h.symm⟩

theorem resolveClip_alike {o o' : Object R} (h : resolveClip settings measurer o = .ok o') :
    Alike o o' ∧ o'.children = o.children := by
  obtain ⟨clip, rfl⟩ := resolveClip_eq_ok h
  exact ⟨.withClip clip, children_withBase _ _⟩

theorem resolveClips_alike {o o' : Object R} (h : resolveClips settings measurer o = .ok o') :
    Alike o o' ∧ resolveAllClips settings measurer o.children = .ok o'.children := by
  cases o with
  | shape b s e | reference b r e =>
    obtain ⟨halike, hchildren⟩ := resolveClip_alike h
    exact ⟨halike, by rw [hchildren]; rfl⟩
  | group b cs info e =>
    rw [resolveClips] at h
    obtain ⟨children, hcs, h⟩ := Outcome.bind_eq_ok.mp h
    obtain ⟨⟨hid, hinfo⟩, hchildren⟩ := resolveClip_alike h
    refine ⟨⟨hid, hinfo⟩, ?_⟩
    rw [hchildren]
    exact hcs

theorem resolveAllClips_cons_eq_ok {o : Object R} {rest out : List (Object R)} :
    resolveAllClips settings measurer (o :: rest) = .ok out ↔
      ∃ o' others, resolveClips settings measurer o = .ok o' ∧
        resolveAllClips settings measurer rest = .ok others ∧ out = o' :: others := by
  simp only [resolveAllClips, Outcome.bind_eq_ok, Outcome.pure_eq_ok]
  constructor
  · intro h
    obtain ⟨o', ho, others, hothers, rfl⟩ := h
    exact ⟨o', others, ho, hothers, rfl⟩
  · intro h
    obtain ⟨o', others, ho, hothers, rfl⟩ := h
    exact ⟨o', ho, others, hothers, rfl⟩

theorem walk_resolveAllClips {objects out : List (Object R)}
    (h : resolveAllClips settings measurer objects = .ok out) :
    List.Forall₂ Alike (Address.walk objects) (Address.walk out) := by
  induction objects using Object.descent generalizing out with
  | nil =>
    cases h
    exact .nil
  | cons o rest ihChildren ihRest =>
    obtain ⟨o', others, ho, hothers, rfl⟩ := resolveAllClips_cons_eq_ok.mp h
    obtain ⟨halike, hchildren⟩ := resolveClips_alike ho
    rw [Address.walk_cons, Address.walk_cons]
    exact List.rel_append (.cons halike (ihChildren hchildren)) (ihRest hothers)

omit [Scalar R] in
theorem map_id_of_alike {objects others : List (Object R)}
    (h : List.Forall₂ Alike objects others) :
    others.map Object.id = objects.map Object.id := by
  rw [← List.forall₂_eq_eq_eq, List.forall₂_map_left_iff, List.forall₂_map_right_iff]
  exact (h.imp fun _ _ ha => ha.id).flip

theorem walk_ids_resolveAllClips {objects out : List (Object R)}
    (h : resolveAllClips settings measurer objects = .ok out) :
    (Address.walk out).map Object.id = (Address.walk objects).map Object.id :=
  map_id_of_alike (walk_resolveAllClips h)

theorem ids_resolveAllClips {objects out : List (Object R)}
    (h : resolveAllClips settings measurer objects = .ok out) :
    Address.ids out = Address.ids objects := by
  have hwalk := congrArg (List.filterMap fun id => id) (walk_ids_resolveAllClips h)
  simpa [List.filterMap_map, Function.comp_def, Address.ids] using hwalk

/-- What is passed on the way down to a position stays at its position. -/
theorem way_resolveAllClips {objects out way : List (Object R)} {p : List Nat}
    (h : resolveAllClips settings measurer objects = .ok out)
    (hw : Object.way objects p = some way) :
    ∃ way', Object.way out p = some way' ∧
      List.Forall₂ (fun o o' => resolveClips settings measurer o = .ok o') way way' := by
  induction objects using Object.descent generalizing out p way with
  | nil =>
    cases h
    cases p with
    | nil =>
      cases hw
      exact ⟨[], rfl, .nil⟩
    | cons i p => simp [Object.way, wayDown] at hw
  | cons o rest ihChildren ihRest =>
    obtain ⟨o', others, ho, hothers, rfl⟩ := resolveAllClips_cons_eq_ok.mp h
    have hchildren := (resolveClips_alike ho).2
    cases p with
    | nil =>
      cases hw
      exact ⟨[], rfl, .nil⟩
    | cons i p =>
      obtain ⟨y, tail, hy, htail, rfl⟩ := (wayDown_cons_eq_some _).mp hw
      cases i with
      | zero =>
        obtain rfl : o = y := by simpa using hy
        obtain ⟨way', hway', hall⟩ := ihChildren hchildren htail
        exact ⟨o' :: way', (wayDown_cons_eq_some _).mpr ⟨o', way', rfl, hway', rfl⟩,
          .cons ho hall⟩
      | succ i =>
        have hrest : Object.way rest (i :: p) = some (y :: tail) :=
          (wayDown_cons_eq_some _).mpr ⟨y, tail, hy, htail, rfl⟩
        obtain ⟨way', hway', hall⟩ := ihRest hothers hrest
        exact ⟨way', hway', hall⟩

/-- What can be addressed on a level stays the same. -/
theorem level_resolveAllClips {objects out : List (Object R)}
    (h : resolveAllClips settings measurer objects = .ok out) :
    List.Forall₂ (fun o o' => resolveClips settings measurer o = .ok o') (Address.level objects)
      (Address.level out) := by
  induction objects using Object.forest generalizing out with
  | nil =>
    cases h
    exact .nil
  | shape b s e rest ih | reference b r e rest ih =>
    obtain ⟨o', others, ho, hothers, rfl⟩ := resolveAllClips_cons_eq_ok.mp h
    obtain ⟨clip, rfl⟩ := resolveClip_eq_ok ho
    exact .cons ho (ih hothers)
  | group b cs info e rest ihChildren ihRest =>
    obtain ⟨o', others, ho, hothers, rfl⟩ := resolveAllClips_cons_eq_ok.mp h
    obtain ⟨children, hchildren, hclip⟩ := Outcome.bind_eq_ok.mp ho
    obtain ⟨clip, rfl⟩ := resolveClip_eq_ok hclip
    have hmembers : List.Forall₂ (fun o o' => resolveClips settings measurer o = .ok o')
        (Address.members (.group b cs info e))
        (Address.members ((group b children info e).withClip clip)) := by
      rw [withClip, withBase, Address.members, Address.members]
      change List.Forall₂ _ _ (if b.id.isNone then _ else _)
      split
      · exact ihChildren hchildren
      · exact .cons ho .nil
    exact List.rel_append hmembers (ihRest hothers)

theorem findLocal_resolveAllClips {objects out : List (Object R)} (k : String)
    (h : resolveAllClips settings measurer objects = .ok out) :
    Option.Rel (fun o o' => resolveClips settings measurer o = .ok o')
      (Address.findLocal objects k) (Address.findLocal out k) := by
  have hlevel := level_resolveAllClips h
  rw [Address.findLocal, Address.findLocal]
  generalize Address.level objects = os at hlevel ⊢
  generalize Address.level out = os' at hlevel ⊢
  induction hlevel with
  | nil => exact .none
  | @cons o o' rest rest' ho hrest ih =>
    rw [List.find?_cons, List.find?_cons, (resolveClips_alike ho).1.id]
    split
    · exact .some ho
    · exact ih

theorem follow_resolveAllClips {objects out : List (Object R)} {scope : String}
    {names : List String} (h : resolveAllClips settings measurer objects = .ok out) :
    (Address.follow out scope names).map Object.id =
      (Address.follow objects scope names).map Object.id := by
  induction names generalizing objects out scope with
  | nil => rfl
  | cons name rest ih =>
    have hfirst := findLocal_resolveAllClips (Address.join scope name) h
    by_cases hrest : rest = []
    · subst hrest
      rw [Address.follow, Address.follow]
      generalize Address.findLocal objects (Address.join scope name) = found at *
      generalize Address.findLocal out (Address.join scope name) = found' at *
      cases hfirst with
      | none => rfl
      | some ho => exact congrArg some (resolveClips_alike ho).1.id
    · rw [Address.follow_cons hrest, Address.follow_cons hrest]
      generalize Address.findLocal objects (Address.join scope name) = found at *
      generalize Address.findLocal out (Address.join scope name) = found' at *
      cases hfirst with
      | none => rfl
      | some ho => exact ih (resolveClips_alike ho).2

end Object

namespace Track

variable {settings : Settings R} {measurer : Measurer R} {objects : List (Object R)}

/-- A track stays what it is but for the values of its keyframes. -/
theorem resolveClip_keyframes {t t' : Track R}
    (h : resolveClip settings measurer objects t = .ok t') :
    t'.target = t.target ∧ t'.property = t.property ∧
      List.Forall₂ (fun k k' => ∃ value, k' = { k with value := value }) t.keyframes
        t'.keyframes := by
  have hsame : List.Forall₂ (fun k k' : Keyframe R => ∃ value, k' = { k with value := value })
      t.keyframes t.keyframes := List.forall₂_same.mpr fun k _ => ⟨k.value, rfl⟩
  rw [resolveClip] at h
  split at h
  · cases h
    exact ⟨rfl, rfl, hsame⟩
  · split at h
    · obtain ⟨size, -, h⟩ := Outcome.bind_eq_ok.mp h
      obtain ⟨keyframes, hk, h⟩ := Outcome.bind_eq_ok.mp h
      rw [Outcome.pure_eq_ok] at h
      subst h
      refine ⟨rfl, rfl, (Outcome.mapM_eq_ok.mp hk).imp ?_⟩
      intro k k' hvalue
      obtain ⟨value, -, hvalue⟩ := Outcome.bind_eq_ok.mp hvalue
      exact ⟨value, (Outcome.pure_eq_ok.mp hvalue).symm⟩
    · cases h
      exact ⟨rfl, rfl, hsame⟩

theorem resolveClip_eq_ok {t t' : Track R}
    (h : resolveClip settings measurer objects t = .ok t') :
    t'.target = t.target ∧ t'.property = t.property ∧
      t'.keyframes.map Keyframe.start = t.keyframes.map Keyframe.start := by
  obtain ⟨htarget, hproperty, hkeyframes⟩ := resolveClip_keyframes h
  refine ⟨htarget, hproperty, ?_⟩
  rw [← List.forall₂_eq_eq_eq, List.forall₂_map_left_iff, List.forall₂_map_right_iff]
  refine List.Forall₂.flip (hkeyframes.imp ?_)
  rintro k _ ⟨value, rfl⟩
  rfl

end Track

theorem resolveClipLengths_eq_ok {settings : Settings R} {measurer : Measurer R}
    {objects out : List (Object R)} {tracks found : List (Track R)}
    (h : resolveClipLengths settings measurer objects tracks = .ok (out, found)) :
    Object.resolveAllClips settings measurer objects = .ok out ∧
      List.Forall₂ (fun t t' => Track.resolveClip settings measurer objects t = .ok t') tracks
        found := by
  rw [resolveClipLengths] at h
  obtain ⟨resolved, hresolved, h⟩ := Outcome.bind_eq_ok.mp h
  obtain ⟨tracks', htracks, h⟩ := Outcome.bind_eq_ok.mp h
  rw [Outcome.pure_eq_ok] at h
  cases h
  exact ⟨hresolved, Outcome.mapM_eq_ok.mp htracks⟩

namespace Catalog

variable {α : Type}

omit [Scalar R] in
theorem withDefinitions_yields {r : Run (DefinitionStore R) α} {c c' : Catalog R} {a : α} :
    (withDefinitions r).Yields c a c' ↔
      ∃ definitions, r.Yields c.definitions a definitions ∧
        c' = { c with definitions := definitions } := by
  rw [withDefinitions, Run.yields_get_bind, Run.yields_set_bind, Run.yields_lift]
  constructor
  · intro h
    obtain ⟨ha, rfl⟩ := h
    exact ⟨_, Prod.ext ha rfl, rfl⟩
  · intro hfound
    obtain ⟨definitions, h, rfl⟩ := hfound
    rw [h]
    exact ⟨rfl, rfl⟩

omit [Scalar R] in
theorem withEffects_yields {r : Run (EffectLibrary R) α} {c c' : Catalog R} {a : α} :
    (withEffects r).Yields c a c' ↔
      ∃ effects, r.Yields c.effects a effects ∧ c' = { c with effects := effects } := by
  rw [withEffects, Run.yields_get_bind, Run.yields_set_bind, Run.yields_lift]
  constructor
  · intro h
    obtain ⟨ha, rfl⟩ := h
    exact ⟨_, Prod.ext ha rfl, rfl⟩
  · intro hfound
    obtain ⟨effects, h, rfl⟩ := hfound
    rw [h]
    exact ⟨rfl, rfl⟩

omit [Scalar R] in
theorem withDefinitions_fails {r : Run (DefinitionStore R) α} {c : Catalog R} {f : Fault} :
    (withDefinitions r).Fails c f ↔ r.Fails c.definitions f := by
  rw [withDefinitions, Run.fails_get_bind, Run.fails_set_bind, Run.fails_lift]
  rfl

omit [Scalar R] in
theorem withEffects_fails {r : Run (EffectLibrary R) α} {c : Catalog R} {f : Fault} :
    (withEffects r).Fails c f ↔ r.Fails c.effects f := by
  rw [withEffects, Run.fails_get_bind, Run.fails_set_bind, Run.fails_lift]
  rfl

end Catalog

namespace Studio

/-- What a compilation has gone through: the expanded tree, and the flattened tree with its
tracks. -/
structure Stages (s : Studio R) (folder : Place) (doc : Document R) (c : Catalog R)
    (timeline : Timeline R) (c' : Catalog R) (expanded flat : List (Object R))
    (tracks : List (Track R)) : Prop where
  declared : Object.checkTree doc.objects = .ok ()
  expands : (Expansion.expandObjects s.disk (.real doc.project.fps) ⟨folder, 0, []⟩
    doc.objects).Yields c.definitions expanded c'.definitions
  checked : Object.checkTree expanded = .ok ()
  flattens : (Flattening.flatten s.disk (.real doc.project.fps) expanded doc.animations
    (doc.speed.map .real)).Yields c.effects (flat, tracks) c'.effects
  clips : resolveClipLengths s.settings s.measurer flat tracks =
    .ok (timeline.objects, timeline.tracks)
  fits : Track.checkAll timeline.objects timeline.tracks = .ok ()

theorem compile_yields {s : Studio R} {folder : Place} {doc : Document R} {c c' : Catalog R}
    {timeline : Timeline R} :
    (s.compile folder doc).Yields c timeline c' ↔
      ∃ expanded flat tracks, s.Stages folder doc c timeline c' expanded flat tracks ∧
        timeline.project = doc.project ∧ timeline.extras = [] := by
  simp only [compile, Run.yields_lift_bind, Run.yields_bind (r := Catalog.withDefinitions _),
    Run.yields_bind (r := Catalog.withEffects _), Catalog.withDefinitions_yields,
    Catalog.withEffects_yields, Run.yields_pure]
  constructor
  · intro h
    obtain ⟨⟨⟩, hdeclared, expanded, -, ⟨definitions, hexpands, rfl⟩, ⟨⟩, hchecked, ⟨flat,
      tracks⟩, -, ⟨effects, hflattens, rfl⟩, ⟨objects, found⟩, hclips, ⟨⟩, hfits, rfl, rfl⟩ := h
    exact ⟨expanded, flat, tracks, ⟨hdeclared, hexpands, hchecked, hflattens, hclips, hfits⟩, rfl,
      rfl⟩
  · intro hfound
    obtain ⟨expanded, flat, tracks, h, hproject, hextras⟩ := hfound
    refine ⟨⟨⟩, h.declared, expanded, _, ⟨_, h.expands, rfl⟩, ⟨⟩, h.checked, (flat, tracks), _,
      ⟨_, h.flattens, rfl⟩, (timeline.objects, timeline.tracks), h.clips, ⟨⟩, h.fits, ?_, rfl⟩
    cases timeline
    simp_all

end Studio

/-- A studio with an empty disk. -/
def bareStudio : Studio Rat := ⟨Disk.empty, .standard, fun _ => .ok ⟨0, 0⟩⟩

end Storyboard
