import Storyboard.Proofs.Compilation
import Storyboard.Proofs.Expansion.Completion
import Storyboard.Proofs.Expansion.Script

namespace Storyboard

variable {R : Type}

open Flattening

theorem forall₂_modify {α : Type} {same : α → α → Prop} (hrefl : ∀ x, same x x) {f : α → α}
    (hf : ∀ x, same x (f x)) (xs : List α) (j : Nat) : List.Forall₂ same xs (xs.modify j f) := by
  induction xs generalizing j with
  | nil => simp
  | cons x xs ih =>
    cases j with
    | zero => exact .cons (hf x) (List.forall₂_same.mpr fun y _ => hrefl y)
    | succ j => exact .cons (hrefl x) (ih j)

namespace Instance

/-- Instances that differ in nothing but animations. -/
structure Similar (i i' : Instance R) : Prop where
  declared : i'.declared.muted = i.declared.muted
  referable : ∀ lead, Referable lead i' ↔ Referable lead i

theorem Similar.refl (i : Instance R) : Similar i i := ⟨rfl, fun _ => .rfl⟩

theorem similar_withEntries (entries : List (Entry R)) (i : Instance R) :
    Similar i (i.withEntries entries) := by
  cases i <;> exact ⟨rfl, fun _ => .rfl⟩

theorem declaredAll_similar {instances instances' : List (Instance R)}
    (h : List.Forall₂ Similar instances instances') :
    Object.mutedAll (declaredAll instances') = Object.mutedAll (declaredAll instances) := by
  induction h with
  | nil => rfl
  | cons hi _ ih => rw [declaredAll, Object.mutedAll, hi.declared, ih, declaredAll, Object.mutedAll]

theorem referableAll_similar {instances instances' : List (Instance R)}
    (h : List.Forall₂ Similar instances instances') (lead : String) :
    ReferableAll lead instances' ↔ ReferableAll lead instances := by
  induction h with
  | nil => exact .rfl
  | cons hi _ ih => exact and_congr (hi.referable lead) ih

theorem similar_changed {f : Instance R → Instance R} (hf : ∀ i, Similar i (f i))
    (instances : List (Instance R)) (p : List Nat) :
    List.Forall₂ Similar instances (changed f instances p) := by
  induction p generalizing instances with
  | nil => exact List.forall₂_same.mpr fun i _ => .refl i
  | cons j p ih =>
    cases p with
    | nil => exact forall₂_modify Similar.refl hf instances j
    | cons k p =>
      refine forall₂_modify Similar.refl (fun i => ?_) instances j
      have hchildren := ih i.children
      cases i with
      | shape b s e => exact .refl _
      | group b cs info e =>
        refine ⟨?_, referableAll_similar hchildren⟩
        change Object.group b _ _ _ = Object.group b _ _ _
        rw [declaredAll_similar hchildren]
        rfl
      | opened b r e place file cs =>
        exact ⟨rfl, fun lead => and_congr_right fun _ => referableAll_similar hchildren _⟩

end Instance

theorem Script.similar_withEntries (σ : Script R) (entries : List (Entry R)) (p : List Nat) :
    List.Forall₂ Instance.Similar σ.instances (σ.withEntries entries p).instances := by
  cases p with
  | nil => exact List.forall₂_same.mpr fun i _ => .refl i
  | cons j p => exact Instance.similar_changed (Instance.similar_withEntries entries) _ _

variable [Scalar R]

/-- The script of a document whose sources start from a folder. -/
structure Script.Of (d : Disk) (store : DefinitionStore R) (folder : Place) (doc : Document R)
    (σ : Script R) : Prop where
  instances : Instance.Of d store folder doc.objects σ.instances
  entries : σ.entries = doc.animations

/-- An animation at a position of a script, whether it is declared there or not, has an object of
the compiled tree as its target and is compiled to tracks. -/
def Script.Compiles (d : Disk) (library : EffectLibrary R) (fps : Number R) (root : TimeScope R)
    (σ : Script R) (p : List Nat) (e : Entry R) (target : Object R) (out : List (Track R)) : Prop :=
  ∃ front expanded way own level cause, σ.Site fps root p front expanded way own level ∧
    Script.cause fps front own.start e = .ok cause ∧ cause.Reaches (Level.along way) level target ∧
    (Source.mk p way cause).Emits d library fps root expanded out

namespace Studio

/-- Compiles a script to the timeline of a document: what compilation does once all references have
been followed. -/
def perform (s : Studio R) (doc : Document R) (σ : Script R) :
    Run (EffectLibrary R) (Timeline R) := do
  let fps : Number R := .real doc.project.fps
  let expanded ← Run.lift (Instance.expandedAll fps "" 0 σ.instances)
  Run.lift (Object.checkTree expanded)
  let (objects, tracks) ← Flattening.flatten s.disk fps expanded σ.entries (doc.speed.map .real)
  let (objects, tracks) ← Run.lift (resolveClipLengths s.settings s.measurer objects tracks)
  Run.lift (Track.checkAll objects tracks)
  return ⟨doc.project, objects, tracks, []⟩

theorem perform_yields {s : Studio R} {doc : Document R} {σ : Script R}
    {library library' : EffectLibrary R} {timeline : Timeline R} :
    (s.perform doc σ).Yields library timeline library' ↔
      ∃ expanded flat tracks, Instance.expandedAll (.real doc.project.fps) "" 0 σ.instances =
          .ok expanded ∧
        Object.checkTree expanded = .ok () ∧
        (Flattening.flatten s.disk (.real doc.project.fps) expanded σ.entries
          (doc.speed.map .real)).Yields library (flat, tracks) library' ∧
        resolveClipLengths s.settings s.measurer flat tracks =
          .ok (timeline.objects, timeline.tracks) ∧
        Track.checkAll timeline.objects timeline.tracks = .ok () ∧
        timeline.project = doc.project ∧ timeline.extras = [] := by
  simp only [perform, Run.yields_lift_bind, Run.yields_bind (r := Flattening.flatten _ _ _ _ _),
    Run.yields_pure]
  constructor
  · intro h
    obtain ⟨expanded, hexpanded, ⟨⟩, hchecked, ⟨flat, tracks⟩, library₁, hflattens,
      ⟨objects, found⟩, hclips, ⟨⟩, hfits, rfl, rfl⟩ := h
    exact ⟨expanded, flat, tracks, hexpanded, hchecked, hflattens, hclips, hfits, rfl, rfl⟩
  · intro h
    obtain ⟨expanded, flat, tracks, hexpanded, hchecked, hflattens, hclips, hfits, hproject,
      hextras⟩ := h
    refine ⟨expanded, hexpanded, ⟨⟩, hchecked, (flat, tracks), library', hflattens,
      (timeline.objects, timeline.tracks), hclips, ⟨⟩, hfits, ?_, rfl⟩
    cases timeline
    simp_all

/-- An animation of a script that is compiled is compiled to tracks itself, and if it is replaced by
others that come to the same tracks, so does the script. -/
theorem perform_replaced {s : Studio R} {doc : Document R} {σ : Script R}
    {library library' : EffectLibrary R} {timeline : Timeline R} {p : List Nat}
    {front : List (Instance R)} {pre post : List (Entry R)} {entry : Entry R}
    (h : (s.perform doc σ).Yields library timeline library')
    (hw : Instance.way σ.instances p = some front)
    (hentries : σ.entriesAt front = pre ++ entry :: post) :
    ∃ expanded way own level cause out,
      σ.Site (.real doc.project.fps) (TimeScope.root (doc.speed.map .real)) p front expanded way own
        level ∧
      Script.cause (.real doc.project.fps) front own.start entry = .ok cause ∧
      (Source.mk p way cause).Emits s.disk library (.real doc.project.fps)
        (TimeScope.root (doc.speed.map .real)) expanded out ∧
      ∀ more causes, List.Forall₂ (fun e c =>
          Script.cause (.real doc.project.fps) front own.start e = .ok c) more causes →
        EmittedBy s.disk library (.real doc.project.fps) (TimeScope.root (doc.speed.map .real))
          expanded (causes.map (Source.mk p way)) out →
        ∃ library'', (s.perform doc (σ.withEntries (pre ++ more ++ post) p)).Yields library timeline
          library'' := by
  obtain ⟨expanded, flat, tracks, hexpanded, hchecked, hflattens, hrest⟩ := perform_yields.mp h
  obtain ⟨hflat, -, hemitted⟩ := flatten_yields hflattens
  have hdeclared : σ.entriesAt front ≠ [] := by
    rw [hentries]
    simp
  obtain ⟨way, own, level, hsite⟩ := Script.exists_site hexpanded hflat hw hdeclared
  obtain ⟨cause, hcause, hreplaced⟩ := hsite.replaced hentries
  obtain ⟨out, hout⟩ : ∃ out, (Source.mk p way cause).Emits s.disk library
      (.real doc.project.fps) (TimeScope.root (doc.speed.map .real)) expanded out := by
    obtain ⟨-, before, behind, -, -, hpart, -⟩ := hreplaced [entry] [cause] (.cons hcause .nil)
    have hmuted := EmittedBy.muted_iff.mpr hemitted
    rw [hpart] at hmuted
    obtain ⟨out, -, hout⟩ := hmuted.exists_part (List.infix_append _ _ _)
    exact ⟨out, EmittedBy.single_iff.mp (EmittedBy.muted_iff.mp hout)⟩
  refine ⟨expanded, way, own, level, cause, out, hsite, hcause, hout, ?_⟩
  intro more causes hmore hemits
  obtain ⟨expanded', before, behind, hexpanded', hobjects, hpart, hother⟩ :=
    hreplaced more causes hmore
  obtain ⟨library'', hflattens'⟩ := flatten_replaced hflattens hobjects hpart hother
    fun out' hout' => by rwa [(EmittedBy.single_iff.mp hout').unique hout]
  refine ⟨library'', perform_yields.mpr ⟨expanded', flat, tracks, hexpanded', ?_, hflattens',
    hrest⟩⟩
  rw [← Object.checkTree_mutedAll, hobjects, Object.checkTree_mutedAll, hchecked]

/-- A document is compiled exactly if its objects pass the checks and it has a script, in which
references may be followed, that is compiled to the same timeline. -/
theorem compile_iff_perform {s : Studio R} {folder : Place} {doc : Document R} {c : Catalog R}
    {timeline : Timeline R} : (∃ c', (s.compile folder doc).Yields c timeline c') ↔
      Object.checkTree doc.objects = .ok () ∧ ∃ σ library',
        Script.Of s.disk c.definitions folder doc σ ∧ Instance.ReferableAll "" σ.instances ∧
        (s.perform doc σ).Yields c.effects timeline library' := by
  constructor
  · intro h
    obtain ⟨c', h⟩ := h
    obtain ⟨expanded, flat, tracks, hstages, hproject, hextras⟩ := compile_yields.mp h
    obtain ⟨instances, hof, href, hexpanded⟩ :=
      Expansion.expandObjects_yields_iff.mp ⟨_, hstages.expands⟩
    exact ⟨hstages.declared, ⟨instances, doc.animations⟩, c'.effects, ⟨hof, rfl⟩, href,
      perform_yields.mpr ⟨expanded, flat, tracks, hexpanded, hstages.checked, hstages.flattens,
        hstages.clips, hstages.fits, hproject, hextras⟩⟩
  · intro h
    obtain ⟨hdeclared, σ, library', ⟨hof, hentries⟩, href, h⟩ := h
    obtain ⟨expanded, flat, tracks, hexpanded, hchecked, hflattens, hclips, hfits, hproject,
      hextras⟩ := perform_yields.mp h
    rw [hentries] at hflattens
    obtain ⟨definitions, hexpands⟩ :=
      Expansion.expandObjects_yields_iff.mpr ⟨σ.instances, hof, href, hexpanded⟩
    exact ⟨⟨definitions, library'⟩, compile_yields.mpr ⟨expanded, flat, tracks,
      ⟨hdeclared, hexpands, hchecked, hflattens, hclips, hfits⟩, hproject, hextras⟩⟩

/-- If a script is compiled with other animations at a position, so is every document that it is the
script of then. -/
theorem compile_of_withEntries {s : Studio R} {folder : Place} {doc doc' : Document R}
    {c c₁ : Catalog R} {timeline : Timeline R} {σ : Script R} {entries : List (Entry R)}
    {p : List Nat} {library' : EffectLibrary R} (hof : σ.Of s.disk c.definitions folder doc)
    (hdeclared : Object.checkTree doc.objects = .ok ())
    (href : Instance.ReferableAll "" σ.instances)
    (h : (s.perform doc (σ.withEntries entries p)).Yields c.effects timeline library')
    (hof' : (σ.withEntries entries p).Of s.disk c₁.definitions folder doc')
    (hproject : doc'.project = doc.project) (hspeed : doc'.speed = doc.speed)
    (heffects : c₁.effects = c.effects) :
    ∃ c₁', (s.compile folder doc').Yields c₁ timeline c₁' := by
  have hsimilar := σ.similar_withEntries entries p
  refine compile_iff_perform.mpr ⟨?_, σ.withEntries entries p, library', hof',
    (Instance.referableAll_similar hsimilar "").mpr href, ?_⟩
  · rw [← hof'.instances.declared, ← Object.checkTree_mutedAll,
      Instance.declaredAll_similar hsimilar, Object.checkTree_mutedAll, hof.instances.declared,
      hdeclared]
  · rw [perform, hproject, hspeed, heffects]
    exact h

end Studio

end Storyboard
