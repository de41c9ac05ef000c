import Mathlib.Logic.Relation
import Storyboard.Proofs.Expansion.Depth
import Storyboard.Proofs.Unreadable

namespace Storyboard.Expansion

open Outcome (Only)

variable {R : Type} [Scalar R] {f : Fault}

theorem mild_source (b : Base R) (r : Reference R) : Outcome.Mild R (source b r) := by
  have hidless : Outcome.Mild R (throw .componentWithoutId : Outcome String) :=
    Outcome.mild_error rfl rfl
  have hsourceless (id : String) :
      Outcome.Mild R (throw (.referenceWithoutSource r.kind.name id) : Outcome String) :=
    Outcome.mild_error rfl rfl
  unfold source
  cases r.source with
  | none =>
    dsimp only
    split
    · split
      · exact hidless
      · exact hsourceless _
    · exact hsourceless _
  | some path =>
    dsimp only
    split
    · split
      · exact hidless
      · split
        · exact hsourceless _
        · exact .pure _
    · split
      · exact hsourceless _
      · exact .pure _

/-- What a file declares as its parameters counts as something, but is no object. -/
def Improper (payload : Members R) : Prop :=
  ∃ j, Members.get? "parameters" payload = some j ∧ j.isFilled = true ∧ ∀ ms, j ≠ .obj ms

theorem parameters_eq_error {payload given : Members R} :
    parameters payload given = .error f ↔ f = .notAMapping ∧ Improper payload := by
  unfold parameters Improper
  cases Members.get? "parameters" payload with
  | none => simp
  | some j =>
    cases hfilled : j.isFilled with
    | false => simp [hfilled, Except.map]
    | true =>
      cases j <;> simp only [hfilled, Except.map, if_true, Except.error.injEq, reduceCtorEq] <;>
        simp [eq_comm (a := f), hfilled]

/-- Only a component is refused for its parameters; any other fault of a file is mild. -/
theorem define_fails {kind : ReferenceKind R} {path : String} {payload : Members R}
    (hf : ¬ f.Mild R) :
    define kind path payload = .error f ↔
      f = .notAMapping ∧ (∃ given, kind = .component given) ∧ Improper payload := by
  have hissues (issues : List Issue) :
      f ≠ Fault.invalidDefinition kind.name path issues := by
    rintro rfl
    exact hf ⟨rfl, .inl rfl⟩
  cases kind with
  | component given =>
    unfold define
    rw [bind_eq_error, parameters_eq_error]
    constructor
    · rintro (⟨hkind, himproper⟩ | ⟨params, -, h⟩)
      · exact ⟨hkind, ⟨given, rfl⟩, himproper⟩
      · split at h
        · cases h
        · exact (hissues _ (Except.error.inj h).symm).elim
    · rintro ⟨hkind, -, himproper⟩
      exact .inl ⟨hkind, himproper⟩
  | scene =>
    unfold define
    constructor
    · intro h
      dsimp only at h
      split at h
      · cases h
      · exact (hissues _ (Except.error.inj h).symm).elim
    · rintro ⟨-, ⟨given, hkind⟩, -⟩
      cases hkind

theorem mild_shifted (offset : Int) (lead : String) (fps : Number R) (e : Entry R) :
    Outcome.Mild R (shifted offset lead fps e) := by
  have hstart (q : Quantity R) : Outcome.Mild R (shiftedStart offset fps q) :=
    (Time.mild_frame fps q).bind fun _ _ => .pure _
  cases e with
  | effect u => exact (hstart u.start).bind fun _ _ => .pure _
  | track t =>
    refine Only.bind (.mapM fun k _ => ?_) fun _ _ => .pure _
    exact (hstart k.start).bind fun _ _ => .pure _

theorem mild_closing (o : Opening R) (fps : Number R) (c : Context) (b : Base R)
    (r : Reference R) (children : List (Object R)) :
    Outcome.Mild R (o.closing fps c b r children) :=
  Only.bind (.mapM fun e _ => mild_shifted _ _ _ e) fun _ _ => .pure _

/-- The place of a file is refused, if at all, for what is no name. -/
theorem locate_refused {folder : Place} {path : String} {cause : FileFault}
    (h : Place.locate folder path = .error cause) : Command.isRefusalOfFile cause = true := by
  rw [Place.locate] at h
  split at h
  · rename_i fault hfault
    cases h
    obtain ⟨name, -, hname⟩ := List.exists_of_findSome?_eq_some hfault
    rw [Route.fault?] at hname
    split at hname
    · cases hname
      rfl
    · split at hname
      · cases hname
        rfl
      · cases hname
  · cases h

/-- A call for a reference that leads back to a file that is open. -/
def Call.Revisits (k : Call R) (place : Place) : Prop :=
  ∃ src, source k.base k.ref = .ok src ∧ Place.locate k.context.folder src = .ok place ∧
    place ∈ k.context.chain

/-- The files that are open at a call, and the one that is opened again. -/
def Call.circle (k : Call R) (place : Place) : List String :=
  (k.context.chain ++ [place]).map Place.text

/-- A call for a reference that leads to a file that is not open. -/
def Call.Opens (k : Call R) (place : Place) : Prop :=
  ∃ src, source k.base k.ref = .ok src ∧ Place.locate k.context.folder src = .ok place ∧
    place ∉ k.context.chain

/-- A call for a file that cannot be read, or for a component with parameters that are no object. -/
inductive Call.Strays (d : Disk) (k : Call R) : Fault → Prop
  | unreadable {place cause} (hopens : k.Opens place)
      (hload : (DefinitionStore.load d place).Fails k.store (.read cause))
      (hcause : cause.hinders = true) : Strays d k (.read cause)
  | parameters {place given payload} (hopens : k.Opens place)
      (hgives : k.store.Gives d place payload) (hkind : k.ref.kind = .component given)
      (himproper : Improper payload) : Strays d k .notAMapping

variable {d : Disk} {fps : Number R}

theorem Call.Strays.not_refusal {k : Call R} (h : k.Strays d f) : Command.isRefusal f = false := by
  cases h with
  | unreadable hopens hload hcause => exact FileFault.not_refusal_of_hinders hcause
  | parameters => rfl

theorem Call.Strays.not_mild {k : Call R} (h : k.Strays d f) : ¬ f.Mild R := by
  refine Fault.not_mild h.not_refusal ?_
  rintro rfl
  cases h

/-- The opening of a file that is not open. -/
def loading (d : Disk) (fps : Number R) (r : Reference R) (place : Place) :
    Run (DefinitionStore R) (Opening R) := do
  let payload ← DefinitionStore.load d place
  let file ← Run.lift (define r.kind place.text payload)
  let start ← Run.lift (Time.frameOrZero fps r.start)
  return ⟨place, file, start⟩

/-- An opening is refused for the name of the file, or as the file is open, or by loading it. -/
theorem opening_fails_iff {k : Call R} :
    (opening d fps k.context k.base k.ref).Fails k.store f ↔
      source k.base k.ref = .error f ∨
      (∃ src cause, source k.base k.ref = .ok src ∧
        Place.locate k.context.folder src = .error cause ∧ f = .read cause) ∨
      (∃ place, k.Revisits place ∧ f = .circularReference (k.circle place)) ∨
      ∃ place, k.Opens place ∧ (loading d fps k.ref place).Fails k.store f := by
  rw [opening, Run.fails_lift_bind]
  refine or_congr_right ?_
  constructor
  · intro h
    obtain ⟨src, hsrc, h⟩ := h
    rcases Run.fails_bind.mp h with h | ⟨place, s, hplace, h⟩
    · obtain ⟨cause, hlocate, rfl⟩ := Run.fails_ofDisk.mp h
      exact .inl ⟨src, cause, hsrc, hlocate, rfl⟩
    obtain ⟨hlocate, rfl⟩ := Run.yields_ofDisk.mp hplace
    dsimp only at h
    by_cases hopen : k.context.chain.contains place = true
    · rw [if_pos hopen] at h
      rcases Run.fails_bind.mp h with h | ⟨u, s, h, -⟩
      · exact .inr (.inl ⟨place, ⟨src, hsrc, hlocate, by simpa using hopen⟩,
          (Run.fails_throw.mp h).symm⟩)
      · exact (Run.yields_throw.mp h).elim
    · rw [if_neg hopen] at h
      exact .inr (.inr ⟨place, ⟨src, hsrc, hlocate, by simpa using hopen⟩, h⟩)
  · rintro (⟨src, cause, hsrc, hlocate, rfl⟩ | ⟨place, ⟨src, hsrc, hlocate, hopen⟩, rfl⟩ |
      ⟨place, ⟨src, hsrc, hlocate, hopen⟩, h⟩)
    · exact ⟨src, hsrc, Run.fails_bind.mpr (.inl (Run.fails_ofDisk.mpr ⟨cause, hlocate, rfl⟩))⟩
    · refine ⟨src, hsrc, Run.fails_bind.mpr (.inr ⟨place, k.store, ?_⟩)⟩
      refine ⟨Run.yields_ofDisk.mpr ⟨hlocate, rfl⟩, ?_⟩
      dsimp only
      rw [if_pos (by simpa using hopen)]
      exact Run.fails_bind.mpr (.inl (Run.fails_throw.mpr rfl))
    · refine ⟨src, hsrc, Run.fails_bind.mpr (.inr ⟨place, k.store, ?_⟩)⟩
      refine ⟨Run.yields_ofDisk.mpr ⟨hlocate, rfl⟩, ?_⟩
      dsimp only
      rwa [if_neg (by simpa using hopen)]

/-- A file that is loaded cannot be read, or has parameters that are no object. -/
theorem loading_fails {k : Call R} {place : Place} (hf : ¬ f.Mild R) (hopens : k.Opens place)
    (h : (loading d fps k.ref place).Fails k.store f) : k.Strays d f := by
  rcases Run.fails_bind.mp h with h | ⟨payload, s, hload, h⟩
  · obtain ⟨cause, rfl, hcause⟩ := DefinitionStore.load_fails hf h
    exact .unreadable hopens h hcause
  rcases Run.fails_lift_bind.mp h with h | ⟨file, -, h⟩
  · obtain ⟨rfl, ⟨given, hkind⟩, himproper⟩ := (define_fails hf).mp h
    exact .parameters hopens (DefinitionStore.load_yields hload).1 hkind himproper
  rcases Run.fails_lift_bind.mp h with h | ⟨start, -, h⟩
  · exact (hf (Time.mild_frameOrZero fps _ f h)).elim
  · exact (Run.fails_pure.mp h).elim

/-- What strays is what the loading of a file is refused with. -/
theorem Call.Strays.loading_fails {k : Call R} (h : k.Strays d f) :
    ∃ place, k.Opens place ∧ (loading d fps k.ref place).Fails k.store f := by
  have hf := h.not_mild
  cases h with
  | unreadable hopens hload hcause => exact ⟨_, hopens, Run.fails_bind.mpr (.inl hload)⟩
  | parameters hopens hgives hkind himproper =>
    obtain ⟨s, hload, -⟩ := DefinitionStore.load_of_gives hgives
    refine ⟨_, hopens, Run.fails_bind.mpr (.inr ⟨_, s, hload, ?_⟩)⟩
    exact Run.fails_lift_bind.mpr (.inl ((define_fails hf).mpr ⟨rfl, ⟨_, hkind⟩, himproper⟩))

/-- A file is opened unless it is open, cannot be read, or has parameters that are no object. -/
theorem opening_fails {k : Call R} (hf : ¬ f.Mild R) :
    (opening d fps k.context k.base k.ref).Fails k.store f ↔
      (∃ place, k.Revisits place ∧ f = .circularReference (k.circle place)) ∨ k.Strays d f := by
  rw [opening_fails_iff]
  constructor
  · rintro (h | ⟨src, cause, -, hlocate, rfl⟩ | h | ⟨place, hopens, h⟩)
    · exact (hf (mild_source _ _ f h)).elim
    · exact (hf ⟨rfl, .inl (locate_refused hlocate)⟩).elim
    · exact .inl h
    · exact .inr (loading_fails hf hopens h)
  · rintro (h | h)
    · exact .inr (.inr (.inl h))
    · exact .inr (.inr (.inr h.loading_fails))

/-- Objects are refused by one of the calls that their expansion comes to. -/
theorem expandTrees_fails {x : Expander R} {c : Context} {objects : List (Object R)}
    {s : DefinitionStore R} (hf : ¬ f.Mild R) :
    (expandTrees x fps c objects).Fails s f ↔
      ∃ k, Comes x fps c objects s k ∧ (k.answer x).1 = .error f := by
  constructor
  · intro h
    induction objects using Object.forest generalizing c s with
    | nil => exact (Run.fails_pure.mp h).elim
    | shape b sh e rest ih =>
      rcases Run.fails_bind.mp h with h | ⟨first, s₁, hfirst, h⟩
      · exact (Run.fails_pure.mp h).elim
      rcases Run.fails_bind.mp h with h | ⟨others, s₂, -, h⟩
      · obtain ⟨k, hk, hfails⟩ := ih h
        exact ⟨k, .beside hfirst hk, hfails⟩
      · exact (Run.fails_pure.mp h).elim
    | reference b r e rest ih =>
      rcases Run.fails_bind.mp h with h | ⟨first, s₁, hfirst, h⟩
      · exact ⟨⟨c, b, r, s⟩, .here c b r e rest s, h⟩
      rcases Run.fails_bind.mp h with h | ⟨others, s₂, -, h⟩
      · obtain ⟨k, hk, hfails⟩ := ih h
        exact ⟨k, .beside hfirst hk, hfails⟩
      · exact (Run.fails_pure.mp h).elim
    | group b cs info e rest ihChildren ihRest =>
      rcases Run.fails_bind.mp h with h | ⟨first, s₁, hfirst, h⟩
      · rcases Run.fails_lift_bind.mp h with h | ⟨start, hstart, h⟩
        · exact (hf (Time.mild_frameOrZero fps _ f h)).elim
        rcases Run.fails_bind.mp h with h | ⟨children, s₂, -, h⟩
        · obtain ⟨k, hk, hfails⟩ := ihChildren h
          exact ⟨k, .inside hstart hk, hfails⟩
        · exact (Run.fails_pure.mp h).elim
      rcases Run.fails_bind.mp h with h | ⟨others, s₂, -, h⟩
      · obtain ⟨k, hk, hfails⟩ := ihRest h
        exact ⟨k, .beside hfirst hk, hfails⟩
      · exact (Run.fails_pure.mp h).elim
  · intro h
    obtain ⟨k, hk, hfails⟩ := h
    induction hk with
    | here c b r e rest s => exact Run.fails_bind.mpr (.inl hfails)
    | inside hstart hk ih =>
      refine Run.fails_bind.mpr (.inl (Run.fails_lift_bind.mpr (.inr ⟨_, hstart, ?_⟩)))
      exact Run.fails_bind.mpr (.inl (ih hfails))
    | beside hfirst hk ih =>
      refine Run.fails_bind.mpr (.inr ⟨_, _, hfirst, ?_⟩)
      exact Run.fails_bind.mpr (.inl (ih hfails))

/-- A call is refused by the opening of its file, or by a call that is nested in it. -/
theorem answer_fails {k : Call R} (hf : ¬ f.Mild R) :
    (k.answer (expandFully d fps)).1 = .error f ↔
      (opening d fps k.context k.base k.ref).Fails k.store f ∨
        ∃ k', k.Nests d (expandFully d fps) fps k' ∧
          (k'.answer (expandFully d fps)).1 = .error f := by
  have hrun : (k.answer (expandFully d fps)).1 = .error f ↔
      ((opening d fps k.context k.base k.ref) >>= fun o => do
        let children ← expandTrees (expandFully d fps) fps (o.context k.context) (o.objects k.base)
        Run.lift (o.closing fps k.context k.base k.ref children)).Fails k.store f := by
    rw [Call.answer, expandFully_eq, expandOne_eq, ← expandFully_eq]
    rfl
  rw [hrun, Run.fails_bind]
  refine or_congr_right ?_
  constructor
  · intro h
    obtain ⟨o, s, ho, h⟩ := h
    rcases Run.fails_bind.mp h with h | ⟨children, s₁, -, h⟩
    · obtain ⟨k', hk', hfails⟩ := (expandTrees_fails hf).mp h
      exact ⟨k', ⟨o, s, ho, hk'⟩, hfails⟩
    · exact (hf (mild_closing _ _ _ _ _ _ f h)).elim
  · intro h
    obtain ⟨k', ⟨o, s, ho, hk'⟩, hfails⟩ := h
    exact ⟨o, s, ho, Run.fails_bind.mpr (.inl ((expandTrees_fails hf).mpr ⟨k', hk', hfails⟩))⟩

/-- Calls that are nested in a call, at any depth, itself included. -/
abbrev Call.Reaches (d : Disk) (fps : Number R) (k k' : Call R) : Prop :=
  Relation.ReflTransGen (fun k k' : Call R => k.Nests d (expandFully d fps) fps k') k k'

/-- A call is refused exactly if it reaches one whose file cannot be opened. -/
theorem answer_fails_iff {k : Call R} (hf : ¬ f.Mild R) :
    (k.answer (expandFully d fps)).1 = .error f ↔
      ∃ k', k.Reaches d fps k' ∧ (opening d fps k'.context k'.base k'.ref).Fails k'.store f := by
  constructor
  · intro h
    induction k using (wellFounded_nests d fps).induction with
    | _ k ih =>
      rcases (answer_fails hf).mp h with hopening | ⟨k₁, hk₁, h⟩
      · exact ⟨k, .refl, hopening⟩
      · obtain ⟨k', hreaches, hopening⟩ := ih k₁ hk₁ h
        exact ⟨k', .head hk₁ hreaches, hopening⟩
  · intro h
    obtain ⟨k', hreaches, hopening⟩ := h
    induction hreaches using Relation.ReflTransGen.head_induction_on with
    | refl => exact (answer_fails hf).mpr (.inl hopening)
    | head hk₁ _ ih => exact (answer_fails hf).mpr (.inr ⟨_, hk₁, ih⟩)

/-- The calls that the expansion of objects comes to, at any depth. -/
def Calls (d : Disk) (fps : Number R) (c : Context) (objects : List (Object R))
    (s : DefinitionStore R) (k : Call R) : Prop :=
  ∃ k₀, Comes (expandFully d fps) fps c objects s k₀ ∧ k₀.Reaches d fps k

/-- Expansion has a fault that is not mild exactly if a call that it comes to leads back to an open
file, or strays. -/
theorem expandObjects_fails {c : Context} {objects : List (Object R)} {s : DefinitionStore R}
    (hf : ¬ f.Mild R) :
    (expandObjects d fps c objects).Fails s f ↔ ∃ k, Calls d fps c objects s k ∧
      ((∃ place, k.Revisits place ∧ f = .circularReference (k.circle place)) ∨
        k.Strays d f) := by
  rw [expandObjects_eq, expandTrees_fails hf]
  constructor
  · intro h
    obtain ⟨k₀, hcomes, hfails⟩ := h
    obtain ⟨k, hreaches, hopening⟩ := (answer_fails_iff hf).mp hfails
    exact ⟨k, ⟨k₀, hcomes, hreaches⟩, (opening_fails hf).mp hopening⟩
  · intro h
    obtain ⟨k, ⟨k₀, hcomes, hreaches⟩, hopening⟩ := h
    exact ⟨k₀, hcomes, (answer_fails_iff hf).mpr ⟨k, hreaches, (opening_fails hf).mpr hopening⟩⟩

end Storyboard.Expansion
