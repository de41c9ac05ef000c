import Storyboard.Proofs.Compilation
import Storyboard.Proofs.Composition.Reading
import Storyboard.Proofs.Expansion.Instance
import Storyboard.Proofs.Flattening.Qualification

namespace Storyboard

variable {R : Type} [Scalar R]

namespace Object

omit [Scalar R] in
theorem Plain.like {o o' : Object R} (h : o.Plain) (hextras : o'.extras = o.extras)
    (hkind : o'.kind = o.kind) (hclip : o'.base.clip = o.base.clip) : o'.Plain := by
  refine ⟨?_, ?_⟩
  · rw [hextras, hkind]
    exact h.extras
  · rw [hclip]
    exact h.clip

end Object

/-- The objects of a definition are read, so they are plain. -/
theorem Expansion.allPlain_define {kind : ReferenceKind R} {path : String} {payload : Members R}
    {file : Definition R} (h : define kind path payload = .ok file) :
    Object.AllPlain file.objects := by
  cases kind with
  | component given =>
    simp only [define] at h
    obtain ⟨params, -, h⟩ := Outcome.bind_eq_ok.mp h
    split at h
    · rename_i c hread
      cases h
      exact Component.allPlain hread
    · cases h
  | scene =>
    simp only [define] at h
    split at h
    · rename_i s hread
      cases h
      exact Scene.allPlain hread
    · cases h

/-- Expansion changes ids and puts groups in the place of references. -/
theorem Instance.allPlain_expandedAll {d : Disk} {store : DefinitionStore R} {fps : Number R}
    {folder : Place} {chain : List Place} {lead : String} {offset : Int}
    {instances : List (Instance R)} (hvalid : ValidAll d store folder chain instances)
    (hplain : Object.AllPlain (declaredAll instances)) {expanded : List (Object R)}
    (h : expandedAll fps lead offset instances = .ok expanded) : Object.AllPlain expanded := by
  induction instances using forest generalizing folder chain lead offset expanded with
  | nil =>
    cases h
    exact Object.allPlain_nil
  | shape b s e rest ih =>
    obtain ⟨o, others, ho, hothers, rfl⟩ := expandedAll_cons_eq_ok.mp h
    cases ho
    obtain ⟨hfirst, -, hrest⟩ := Object.allPlain_cons.mp hplain
    exact Object.allPlain_cons.mpr ⟨hfirst.like rfl rfl rfl, Object.allPlain_nil,
      ih hvalid.2 hrest hothers⟩
  | group b cs info e rest ihChildren ihRest =>
    obtain ⟨o, others, ho, hothers, rfl⟩ := expandedAll_cons_eq_ok.mp h
    obtain ⟨start, children, -, hchildren, rfl⟩ := expanded_group_eq_ok.mp ho
    obtain ⟨hfirst, hcs, hrest⟩ := Object.allPlain_cons.mp hplain
    exact Object.allPlain_cons.mpr ⟨hfirst.like rfl rfl rfl, ihChildren hvalid.1 hcs hchildren,
      ihRest hvalid.2 hrest hothers⟩
  | opened b r e place file cs rest ihChildren ihRest =>
    obtain ⟨o, others, ho, hothers, rfl⟩ := expandedAll_cons_eq_ok.mp h
    obtain ⟨start, children, resolved, -, hchildren, -, rfl⟩ := expanded_opened_eq_ok.mp ho
    obtain ⟨hfirst, -, hrest⟩ := Object.allPlain_cons.mp hplain
    obtain ⟨⟨-, -, ⟨payload, -, hdefine⟩, hobjects, hcs⟩, hothersValid⟩ := hvalid
    refine Object.allPlain_cons.mpr ⟨⟨fun m hm => ?_, hfirst.clip⟩, ?_,
      ihRest hothersValid hrest hothers⟩
    · simp [Object.extras] at hm
    · refine ihChildren hcs ?_ hchildren
      rw [hobjects]
      exact Expansion.allPlain_define hdefine

theorem Flattening.allPlain_absoluteAll {fps : Number R} {l : Level} {scope : TimeScope R}
    {objects compiled : List (Object R)} (hplain : Object.AllPlain objects)
    (h : absoluteAll fps l scope objects = .ok compiled) : Object.AllPlain compiled := by
  induction objects using Object.forest generalizing l scope compiled with
  | nil =>
    cases h
    exact Object.allPlain_nil
  | shape b s e rest ih | reference b r e rest ih =>
    obtain ⟨c, others, hc, hothers, rfl⟩ := absoluteAll_cons_eq_ok.mp h
    cases hc
    obtain ⟨hfirst, -, hrest⟩ := Object.allPlain_cons.mp hplain
    exact Object.allPlain_cons.mpr ⟨hfirst.like rfl rfl rfl, Object.allPlain_nil,
      ih hrest hothers⟩
  | group b cs info e rest ihChildren ihRest =>
    obtain ⟨c, others, hc, hothers, rfl⟩ := absoluteAll_cons_eq_ok.mp h
    obtain ⟨own, children, duration, -, hchildren, -, rfl⟩ := absolute_group_eq_ok.mp hc
    obtain ⟨hfirst, hcs, hrest⟩ := Object.allPlain_cons.mp hplain
    exact Object.allPlain_cons.mpr ⟨hfirst.like rfl rfl rfl, ihChildren hcs hchildren,
      ihRest hrest hothers⟩

namespace Object

variable {settings : Settings R} {measurer : Measurer R}

theorem Plain.resolveClip {o o' : Object R} (h : o.Plain)
    (hresolve : o.resolveClip settings measurer = .ok o') : o'.Plain := by
  rw [Object.resolveClip] at hresolve
  split at hresolve
  · cases hresolve
    exact h
  · rename_i c hc
    obtain ⟨size, -, hresolve⟩ := Outcome.bind_eq_ok.mp hresolve
    obtain ⟨c', hc', hresolve⟩ := Outcome.bind_eq_ok.mp hresolve
    obtain rfl := Outcome.pure_eq_ok.mp hresolve
    have hextras : c'.extras = c.extras := by
      obtain ⟨x, -, hc'⟩ := Outcome.bind_eq_ok.mp hc'
      obtain ⟨width, -, hc'⟩ := Outcome.bind_eq_ok.mp hc'
      obtain ⟨y, -, hc'⟩ := Outcome.bind_eq_ok.mp hc'
      obtain ⟨height, -, hc'⟩ := Outcome.bind_eq_ok.mp hc'
      obtain rfl := Outcome.pure_eq_ok.mp hc'
      rfl
    refine ⟨?_, fun c'' hc'' => ?_⟩
    · cases o <;> exact h.extras
    · rw [withClip, base_withBase] at hc''
      cases hc''
      rw [hextras]
      exact h.clip c hc

theorem allPlain_resolveAllClips {objects out : List (Object R)} (hplain : AllPlain objects)
    (h : resolveAllClips settings measurer objects = .ok out) : AllPlain out := by
  induction objects using Object.forest generalizing out with
  | nil =>
    cases h
    exact allPlain_nil
  | shape b s e rest ih | reference b r e rest ih =>
    obtain ⟨o', others, ho, hothers, rfl⟩ := resolveAllClips_cons_eq_ok.mp h
    obtain ⟨hfirst, hchildren, hrest⟩ := allPlain_cons.mp hplain
    refine allPlain_cons.mpr ⟨hfirst.resolveClip ho, ?_, ih hrest hothers⟩
    rw [(resolveClip_alike ho).2]
    exact hchildren
  | group b cs info e rest ihChildren ihRest =>
    obtain ⟨o', others, ho, hothers, rfl⟩ := resolveAllClips_cons_eq_ok.mp h
    obtain ⟨children, hchildren, hclip⟩ := Outcome.bind_eq_ok.mp ho
    obtain ⟨hfirst, hcs, hrest⟩ := allPlain_cons.mp hplain
    have hgroup : (Object.group b children info e).Plain := hfirst.like rfl rfl rfl
    refine allPlain_cons.mpr ⟨hgroup.resolveClip hclip, ?_, ihRest hrest hothers⟩
    rw [(resolveClip_alike hclip).2]
    exact ihChildren hcs hchildren

end Object

/-- The objects of a flattened document are plain if those of the document are. -/
theorem Flattening.allPlain_flatten {d : Disk} {fps fps' : Number R} {folder : Place}
    {objects expanded flat : List (Object R)} {store store' : DefinitionStore R}
    {entries : List (Entry R)} {speed : Option (Number R)} {library library' : EffectLibrary R}
    {tracks : List (Track R)} (hplain : Object.AllPlain objects)
    (hexpands : (Expansion.expandObjects d fps ⟨folder, 0, []⟩ objects).Yields store expanded store')
    (hflattens : (flatten d fps' expanded entries speed).Yields library (flat, tracks) library') :
    Object.AllPlain flat := by
  obtain ⟨instances, hof, hexpanded⟩ := Expansion.expandObjects_yields hexpands
  rw [← hof.declared] at hplain
  obtain ⟨habsolute, -, -⟩ := flatten_yields hflattens
  exact allPlain_absoluteAll (Instance.allPlain_expandedAll hof.valid hplain hexpanded) habsolute

/-- The objects of a compiled document are plain if those of the document are. -/
theorem Studio.Stages.allPlain {s : Studio R} {folder : Place} {doc : Document R}
    {c c' : Catalog R} {timeline : Timeline R} {expanded flat : List (Object R)}
    {tracks : List (Track R)} (h : s.Stages folder doc c timeline c' expanded flat tracks)
    (hdoc : Object.AllPlain doc.objects) : Object.AllPlain timeline.objects := by
  obtain ⟨hresolved, -⟩ := resolveClipLengths_eq_ok h.clips
  exact Object.allPlain_resolveAllClips (Flattening.allPlain_flatten hdoc h.expands h.flattens)
    hresolved

end Storyboard
