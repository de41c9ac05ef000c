import Storyboard.Proofs.Expansion.Depth

namespace Storyboard

variable {R : Type} [Scalar R]

theorem DefinitionStore.within_of_load {d : Disk} {p : Place} {s s' : DefinitionStore R}
    {members : Members R} (h : (load d p).Yields s members s') : s.Within d s' := by
  obtain ⟨t, ht, hwithin⟩ := load_of_gives (load_yields h).1
  obtain rfl : t = s' := (Prod.mk.inj (ht.symm.trans h)).2
  exact hwithin

namespace Instance

mutual

/-- Behind a prefix, every reference has a source and every component an id. -/
def Referable (lead : String) : Instance R → Prop
  | .shape .. => True
  | .group _ cs _ _ => ReferableAll lead cs
  | .opened b r _ _ _ cs => (∃ src, Expansion.source (behind lead b) r = .ok src) ∧
      ReferableAll (Expansion.lead (behind lead b)) cs

def ReferableAll (lead : String) : List (Instance R) → Prop
  | [] => True
  | i :: rest => Referable lead i ∧ ReferableAll lead rest

end

end Instance

namespace Expansion

variable {d : Disk} {fps : Number R}

theorem expandFully_yields {c : Context} {b : Base R} {r : Reference R} {o : Object R}
    {s s' : DefinitionStore R} :
    (expandFully d fps c b r).Yields s o s' ↔ ∃ op s₁ children,
      (opening d fps c b r).Yields s op s₁ ∧
      (expandTrees (expandFully d fps) fps (op.context c) (op.objects b)).Yields s₁ children s' ∧
      op.closing fps c b r children = .ok o := by
  rw [expandFully_eq, expandOne_eq, ← expandFully_eq]
  simp only [Run.yields_bind, Run.yields_lift]
  constructor
  · intro h
    obtain ⟨op, s₁, hop, children, s₂, hchildren, hclosing, rfl⟩ := h
    exact ⟨op, s₁, children, hop, hchildren, hclosing⟩
  · intro h
    obtain ⟨op, s₁, children, hop, hchildren, hclosing⟩ := h
    exact ⟨op, s₁, hop, children, s', hchildren, hclosing, rfl⟩

theorem expandTrees_cons_yields {x : Expander R} {c : Context} {o : Object R}
    {rest expanded : List (Object R)} {s s' : DefinitionStore R} :
    (expandTrees x fps c (o :: rest)).Yields s expanded s' ↔ ∃ first s₁ others,
      (expandTree x fps c o).Yields s first s₁ ∧ (expandTrees x fps c rest).Yields s₁ others s' ∧
      expanded = first :: others := by
  rw [expandTrees]
  simp only [Run.yields_bind, Run.yields_pure]
  constructor
  · intro h
    obtain ⟨first, s₁, hfirst, others, s₂, hothers, rfl, rfl⟩ := h
    exact ⟨first, s₁, others, hfirst, hothers, rfl⟩
  · intro h
    obtain ⟨first, s₁, others, hfirst, hothers, rfl⟩ := h
    exact ⟨first, s₁, hfirst, others, s', hothers, rfl, rfl⟩

/-- Instances whose references may be followed are expanded. -/
theorem expandTrees_of_instances {c : Context} {lead : String} {instances : List (Instance R)}
    {expanded : List (Object R)} {s : DefinitionStore R}
    (hvalid : Instance.ValidAll d s c.folder c.chain instances)
    (href : Instance.ReferableAll lead instances)
    (h : Instance.expandedAll fps lead c.offset instances = .ok expanded) :
    ∃ s', (expandTrees (expandFully d fps) fps c
      (prefixedAll lead (Instance.declaredAll instances))).Yields s expanded s' ∧
        s.Within d s' := by
  induction instances using Instance.forest generalizing c lead expanded s with
  | nil =>
    cases h
    exact ⟨s, Run.yields_pure.mpr ⟨rfl, rfl⟩, .refl d s⟩
  | shape b sh e rest ih =>
    obtain ⟨o, others, ho, hothers, rfl⟩ := Instance.expandedAll_cons_eq_ok.mp h
    cases ho
    obtain ⟨s', hrest, hwithin⟩ := ih hvalid.2 href.2 hothers
    refine ⟨s', expandTrees_cons_yields.mpr ⟨_, s, others, ?_, hrest, rfl⟩, hwithin⟩
    exact Run.yields_pure.mpr ⟨rfl, rfl⟩
  | group b cs info e rest ihChildren ihRest =>
    obtain ⟨o, others, ho, hothers, rfl⟩ := Instance.expandedAll_cons_eq_ok.mp h
    obtain ⟨start, children, hstart, hchildren, rfl⟩ := Instance.expanded_group_eq_ok.mp ho
    obtain ⟨s₁, hfirst, hwithin⟩ := ihChildren (c := { c with offset := c.offset + start })
      hvalid.1 href.1 hchildren
    obtain ⟨s₂, hrest, hwithin'⟩ := ihRest (hvalid.2.mono hwithin) href.2 hothers
    refine ⟨s₂, expandTrees_cons_yields.mpr ⟨_, s₁, others, ?_, hrest, rfl⟩, hwithin.trans hwithin'⟩
    refine Run.yields_lift_bind.mpr ⟨start, hstart, ?_⟩
    exact Run.yields_bind.mpr ⟨children, s₁, hfirst, Run.yields_pure.mpr ⟨rfl, rfl⟩⟩
  | opened b r e place file cs rest ihChildren ihRest =>
    obtain ⟨o, others, ho, hothers, rfl⟩ := Instance.expandedAll_cons_eq_ok.mp h
    obtain ⟨start, children, resolved, hstart, hchildren, hresolved, rfl⟩ :=
      Instance.expanded_opened_eq_ok.mp ho
    obtain ⟨⟨⟨src, hsrc, hlocate⟩, hchain, ⟨payload, hgives, hfile⟩, hdeclared, hcs⟩, hvalid⟩ :=
      hvalid
    obtain ⟨⟨⟨src', hsource⟩, hinner⟩, href⟩ := href
    obtain rfl : src = src' := Option.some.inj (hsrc.symm.trans (source_eq_ok hsource))
    obtain ⟨s₁, hload, hwithin⟩ := DefinitionStore.load_of_gives hgives
    have hopening : (opening d fps c (Instance.behind lead b) r).Yields s ⟨place, file, start⟩ s₁ :=
      opening_yields.mpr ⟨src, payload, hsource, hlocate, hchain, hload, hfile, hstart⟩
    obtain ⟨s₂, hfirst, hwithin'⟩ := ihChildren
      (c := Opening.context ⟨place, file, start⟩ c) (hcs.mono hwithin) hinner hchildren
    obtain ⟨s₃, hrest, hwithin''⟩ := ihRest (hvalid.mono (hwithin.trans hwithin')) href hothers
    rw [hdeclared] at hfirst
    refine ⟨s₃, expandTrees_cons_yields.mpr ⟨_, s₂, others, ?_, hrest, rfl⟩,
      (hwithin.trans hwithin').trans hwithin''⟩
    refine expandFully_yields.mpr ⟨⟨place, file, start⟩, s₁, children, hopening, hfirst, ?_⟩
    exact Outcome.bind_eq_ok.mpr ⟨resolved, hresolved, rfl⟩

/-- What has been expanded could be referred to. -/
theorem referableAll_of_expandTrees {c : Context} {lead : String} {instances : List (Instance R)}
    {expanded : List (Object R)} {s s' : DefinitionStore R}
    (hvalid : Instance.ValidAll d s c.folder c.chain instances)
    (h : (expandTrees (expandFully d fps) fps c
      (prefixedAll lead (Instance.declaredAll instances))).Yields s expanded s') :
    Instance.ReferableAll lead instances ∧ s.Within d s' := by
  induction instances using Instance.forest generalizing c lead expanded s s' with
  | nil =>
    obtain ⟨-, rfl⟩ := Run.yields_pure.mp h
    exact ⟨trivial, .refl d s⟩
  | shape b sh e rest ih =>
    obtain ⟨first, s₁, others, hfirst, hothers, rfl⟩ := expandTrees_cons_yields.mp h
    obtain ⟨-, rfl⟩ := Run.yields_pure.mp hfirst
    obtain ⟨href, hwithin⟩ := ih hvalid.2 hothers
    exact ⟨⟨trivial, href⟩, hwithin⟩
  | group b cs info e rest ihChildren ihRest =>
    obtain ⟨first, s₁, others, hfirst, hothers, rfl⟩ := expandTrees_cons_yields.mp h
    obtain ⟨start, -, hfirst⟩ := Run.yields_lift_bind.mp hfirst
    obtain ⟨children, s₂, hchildren, hfirst⟩ := Run.yields_bind.mp hfirst
    obtain ⟨-, rfl⟩ := Run.yields_pure.mp hfirst
    obtain ⟨hcs, hwithin⟩ := ihChildren (c := { c with offset := c.offset + start }) hvalid.1
      hchildren
    obtain ⟨href, hwithin'⟩ := ihRest (hvalid.2.mono hwithin) hothers
    exact ⟨⟨hcs, href⟩, hwithin.trans hwithin'⟩
  | opened b r e place file cs rest ihChildren ihRest =>
    obtain ⟨first, s₁, others, hfirst, hothers, rfl⟩ := expandTrees_cons_yields.mp h
    obtain ⟨op, s₂, children, hopening, hchildren, -⟩ := expandFully_yields.mp hfirst
    obtain ⟨⟨⟨src, hsrc, hlocate⟩, -, ⟨payload, hgives, hfile⟩, hdeclared, hcs⟩, hvalid⟩ := hvalid
    obtain ⟨src', payload', hsource, hlocate', -, hload, hfile', -⟩ := opening_yields.mp hopening
    have hwithin := DefinitionStore.within_of_load hload
    obtain rfl : src = src' := Option.some.inj (hsrc.symm.trans (source_eq_ok hsource))
    obtain rfl : place = op.place := Except.ok.inj (hlocate.symm.trans hlocate')
    obtain rfl : payload = payload' := hgives.unique (DefinitionStore.load_yields hload).1
    obtain rfl : file = op.file := Except.ok.inj (hfile.symm.trans hfile')
    rw [Opening.objects, ← hdeclared] at hchildren
    obtain ⟨hinner, hwithin'⟩ := ihChildren (c := op.context c) (hcs.mono hwithin) hchildren
    obtain ⟨href, hwithin''⟩ := ihRest (hvalid.mono (hwithin.trans hwithin')) hothers
    exact ⟨⟨⟨⟨src, hsource⟩, hinner⟩, href⟩, (hwithin.trans hwithin').trans hwithin''⟩

/-- A document is expanded exactly if it has instances whose references may be followed and whose
times can be read, and to what is made of these. -/
theorem expandObjects_yields_iff {folder : Place} {objects expanded : List (Object R)}
    {s : DefinitionStore R} :
    (∃ s', (expandObjects d fps ⟨folder, 0, []⟩ objects).Yields s expanded s') ↔
      ∃ instances, Instance.Of d s folder objects instances ∧
        Instance.ReferableAll "" instances ∧
        Instance.expandedAll fps "" 0 instances = .ok expanded := by
  constructor
  · intro h
    obtain ⟨s', h⟩ := h
    obtain ⟨instances, hof, hexpanded⟩ := expandObjects_yields h
    refine ⟨instances, hof, ?_, hexpanded⟩
    rw [expandObjects_eq, ← prefixedAll_empty objects, ← hof.declared] at h
    exact (referableAll_of_expandTrees hof.valid h).1
  · intro h
    obtain ⟨instances, hof, href, hexpanded⟩ := h
    obtain ⟨s', h, -⟩ := expandTrees_of_instances (c := ⟨folder, 0, []⟩) hof.valid href hexpanded
    rw [hof.declared, prefixedAll_empty, ← expandObjects_eq] at h
    exact ⟨s', h⟩

end Expansion

end Storyboard
