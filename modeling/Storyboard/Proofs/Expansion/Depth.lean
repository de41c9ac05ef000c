import Storyboard.Proofs.Expansion.Instance
import Storyboard.Proofs.Places

namespace Storyboard

namespace Run

variable {σ α β : Type}

theorem ext {r r' : Run σ α} (h : ∀ s, r.exec s = r'.exec s) : r = r' := funext h

theorem exec_bind_congr {r r' : Run σ α} {g g' : α → Run σ β} {s : σ} (hr : r.exec s = r'.exec s)
    (hg : ∀ a t, r.Yields s a t → (g a).exec t = (g' a).exec t) :
    (r >>= g).exec s = (r' >>= g').exec s := by
  rw [exec_bind, exec_bind, ← hr]
  rcases he : r.exec s with ⟨f | a, t⟩
  · rfl
  · exact hg a t he

theorem lift_bind_pure (o : Outcome α) (g : α → β) :
    ((Run.lift o : Run σ α) >>= fun a => pure (g a)) = Run.lift (o >>= fun a => pure (g a)) := by
  cases o <;> rfl

end Run

namespace Expansion

variable {R : Type} [Scalar R]

/-- A file that a reference opens, and the frame at which the reference starts. -/
structure Opening (R : Type) where
  place : Place
  file : Definition R
  start : Int

/-- Opens the file of a reference, unless it is open. -/
def opening (d : Disk) (fps : Number R) (c : Context) (b : Base R) (r : Reference R) :
    Run (DefinitionStore R) (Opening R) := do
  let src ← Run.lift (source b r)
  let place ← Run.ofDisk (Place.locate c.folder src)
  if c.chain.contains place then
    throw (.circularReference ((c.chain ++ [place]).map Place.text))
  let payload ← DefinitionStore.load d place
  let file ← Run.lift (define r.kind place.text payload)
  let start ← Run.lift (Time.frameOrZero fps r.start)
  return ⟨place, file, start⟩

namespace Opening

/-- Where the objects of the file are expanded. -/
def context (o : Opening R) (c : Context) : Context :=
  ⟨o.place.folder, c.offset + o.start, c.chain ++ [o.place]⟩

/-- The objects of the file, behind the prefix of the reference. -/
def objects (o : Opening R) (b : Base R) : List (Object R) := prefixedAll (lead b) o.file.objects

/-- The group that stands for the reference, its objects expanded. -/
def closing (o : Opening R) (fps : Number R) (c : Context) (b : Base R) (r : Reference R)
    (children : List (Object R)) : Outcome (Object R) := do
  let resolved ← o.file.animations.mapM (shifted (c.offset + o.start) (lead b) fps)
  return .group b children (Instance.standIn r o.place o.file resolved) []

end Opening

theorem expandOne_eq (inner : Expander R) (d : Disk) (fps : Number R) (c : Context) (b : Base R)
    (r : Reference R) :
    expandOne inner d fps c b r = (do
      let o ← opening d fps c b r
      let children ← expandTrees inner fps (o.context c) (o.objects b)
      Run.lift (o.closing fps c b r children)) := by
  unfold expandOne opening
  simp only [bind_assoc]
  refine bind_congr fun src => bind_congr fun place => ?_
  by_cases hopen : c.chain.contains place = true
  · rw [if_pos hopen, if_pos hopen]
    rfl
  · rw [if_neg hopen, if_neg hopen]
    simp only [bind_assoc]
    refine bind_congr fun payload => bind_congr fun file => bind_congr fun start => ?_
    have hobjects : (if lead b == "" then file.objects else prefixedAll (lead b) file.objects) =
        prefixedAll (lead b) file.objects := by
      split
      · rename_i hempty
        rw [eq_of_beq hempty, prefixedAll_empty]
      · rfl
    rw [hobjects, pure_bind]
    exact bind_congr fun children => Run.lift_bind_pure _ _

theorem opening_yields {d : Disk} {fps : Number R} {c : Context} {b : Base R} {r : Reference R}
    {s s' : DefinitionStore R} {o : Opening R} :
    (opening d fps c b r).Yields s o s' ↔
      ∃ src payload, source b r = .ok src ∧ Place.locate c.folder src = .ok o.place ∧
        o.place ∉ c.chain ∧ (DefinitionStore.load d o.place).Yields s payload s' ∧
        define r.kind o.place.text payload = .ok o.file ∧
        Time.frameOrZero fps r.start = .ok o.start := by
  constructor
  · intro h
    obtain ⟨src, hsrc, h⟩ := Run.yields_lift_bind.mp h
    obtain ⟨place, s₁, hplace, h⟩ := Run.yields_bind.mp h
    obtain ⟨hlocate, rfl⟩ := Run.yields_ofDisk.mp hplace
    dsimp only at h
    by_cases hopen : c.chain.contains place = true
    · rw [if_pos hopen] at h
      exact (Run.yields_throw.mp (Run.yields_bind.mp h).choose_spec.choose_spec.1).elim
    · rw [if_neg hopen] at h
      obtain ⟨payload, s₂, hload, h⟩ := Run.yields_bind.mp h
      obtain ⟨file, hfile, h⟩ := Run.yields_lift_bind.mp h
      obtain ⟨start, hstart, h⟩ := Run.yields_lift_bind.mp h
      obtain ⟨rfl, rfl⟩ := Run.yields_pure.mp h
      exact ⟨src, payload, hsrc, hlocate, by simpa using hopen, hload, hfile, hstart⟩
  · intro h
    obtain ⟨src, payload, hsrc, hlocate, hopen, hload, hfile, hstart⟩ := h
    refine Run.yields_lift_bind.mpr ⟨src, hsrc, ?_⟩
    refine Run.yields_bind.mpr ⟨o.place, s, Run.yields_ofDisk.mpr ⟨hlocate, rfl⟩, ?_⟩
    dsimp only
    rw [if_neg (by simpa using hopen)]
    refine Run.yields_bind.mpr ⟨payload, s', hload, ?_⟩
    refine Run.yields_lift_bind.mpr ⟨o.file, hfile, ?_⟩
    exact Run.yields_lift_bind.mpr ⟨o.start, hstart, Run.yields_pure.mpr ⟨rfl, rfl⟩⟩

/-- The expansion of a reference that is called for. -/
structure Call (R : Type) where
  context : Context
  base : Base R
  ref : Reference R
  store : DefinitionStore R

/-- What an expander does with a call. -/
def Call.answer (k : Call R) (x : Expander R) : Outcome (Object R) × DefinitionStore R :=
  (x k.context k.base k.ref).exec k.store

/-- Expanding objects comes to a call for one of the references among them. -/
inductive Comes (x : Expander R) (fps : Number R) :
    Context → List (Object R) → DefinitionStore R → Call R → Prop
  | here (c b r e rest s) : Comes x fps c (.reference b r e :: rest) s ⟨c, b, r, s⟩
  | inside {c b cs info e rest s start k} (hstart : Time.frameOrZero fps info.start = .ok start)
      (h : Comes x fps { c with offset := c.offset + start } cs s k) :
      Comes x fps c (.group b cs info e :: rest) s k
  | beside {c o rest s first s₁ k} (hfirst : (expandTree x fps c o).Yields s first s₁)
      (h : Comes x fps c rest s₁ k) : Comes x fps c (o :: rest) s k

/-- A list of objects is expanded alike by two expanders that answer all calls alike. -/
theorem expandTrees_congr {x y : Expander R} {fps : Number R} {c : Context}
    {objects : List (Object R)} {s : DefinitionStore R}
    (h : ∀ k, Comes x fps c objects s k → k.answer x = k.answer y) :
    (expandTrees x fps c objects).exec s = (expandTrees y fps c objects).exec s := by
  induction objects using Object.forest generalizing c s with
  | nil => rfl
  | shape b sh e rest ih =>
    refine Run.exec_bind_congr rfl fun first s₁ hfirst => ?_
    exact Run.exec_bind_congr (ih fun k hk => h k (.beside hfirst hk)) fun _ _ _ => rfl
  | reference b r e rest ih =>
    refine Run.exec_bind_congr (h _ (.here c b r e rest s)) fun first s₁ hfirst => ?_
    exact Run.exec_bind_congr (ih fun k hk => h k (.beside hfirst hk)) fun _ _ _ => rfl
  | group b cs info e rest ihChildren ihRest =>
    have hgroup : (expandTree x fps c (.group b cs info e)).exec s =
        (expandTree y fps c (.group b cs info e)).exec s := by
      refine Run.exec_bind_congr rfl fun start s₁ hlift => ?_
      obtain ⟨hstart, rfl⟩ := Run.yields_lift.mp hlift
      exact Run.exec_bind_congr (ihChildren fun k hk => h k (.inside hstart hk)) fun _ _ _ => rfl
    refine Run.exec_bind_congr hgroup fun first s₁ hfirst => ?_
    exact Run.exec_bind_congr (ihRest fun k hk => h k (.beside hfirst hk)) fun _ _ _ => rfl

/-- A call opens a file and in it comes to another call. -/
def Call.Nests (d : Disk) (x : Expander R) (fps : Number R) (k k' : Call R) : Prop :=
  ∃ o s, (opening d fps k.context k.base k.ref).Yields k.store o s ∧
    Comes x fps (o.context k.context) (o.objects k.base) s k'

theorem expandOne_congr {d : Disk} {x y : Expander R} {fps : Number R} {k : Call R}
    (h : ∀ k', k.Nests d x fps k' → k'.answer x = k'.answer y) :
    k.answer (expandOne x d fps) = k.answer (expandOne y d fps) := by
  simp only [Call.answer, expandOne_eq]
  refine Run.exec_bind_congr rfl fun o s ho => ?_
  exact Run.exec_bind_congr (expandTrees_congr fun k' hk => h k' ⟨o, s, ho, hk⟩) fun _ _ _ => rfl

/-- An expander that leaves stores that give nothing new. -/
def Keeps (d : Disk) (x : Expander R) : Prop :=
  ∀ c b r s o s', (x c b r).Yields s o s' → s'.Within d s

theorem expandTrees_keeps {d : Disk} {x : Expander R} (hx : Keeps d x) {fps : Number R}
    {c : Context} {objects expanded : List (Object R)} {s s' : DefinitionStore R}
    (h : (expandTrees x fps c objects).Yields s expanded s') : s'.Within d s := by
  induction objects using Object.forest generalizing c s expanded s' with
  | nil =>
    obtain ⟨-, rfl⟩ := Run.yields_pure.mp h
    exact .refl d s
  | shape b sh e rest ih =>
    obtain ⟨first, s₁, hfirst, h⟩ := Run.yields_bind.mp h
    obtain ⟨others, s₂, hothers, h⟩ := Run.yields_bind.mp h
    obtain ⟨-, rfl⟩ := Run.yields_pure.mp h
    obtain ⟨-, rfl⟩ := Run.yields_pure.mp hfirst
    exact ih hothers
  | reference b r e rest ih =>
    obtain ⟨first, s₁, hfirst, h⟩ := Run.yields_bind.mp h
    obtain ⟨others, s₂, hothers, h⟩ := Run.yields_bind.mp h
    obtain ⟨-, rfl⟩ := Run.yields_pure.mp h
    exact (ih hothers).trans (hx _ _ _ _ _ _ hfirst)
  | group b cs info e rest ihChildren ihRest =>
    obtain ⟨first, s₁, hfirst, h⟩ := Run.yields_bind.mp h
    obtain ⟨others, s₂, hothers, h⟩ := Run.yields_bind.mp h
    obtain ⟨-, rfl⟩ := Run.yields_pure.mp h
    obtain ⟨start, -, hfirst⟩ := Run.yields_lift_bind.mp hfirst
    obtain ⟨children, s₃, hchildren, hfirst⟩ := Run.yields_bind.mp hfirst
    obtain ⟨-, rfl⟩ := Run.yields_pure.mp hfirst
    exact (ihRest hothers).trans (ihChildren hchildren)

theorem expandTree_keeps {d : Disk} {x : Expander R} (hx : Keeps d x) {fps : Number R}
    {c : Context} {o first : Object R} {s s' : DefinitionStore R}
    (h : (expandTree x fps c o).Yields s first s') : s'.Within d s := by
  have hone : (expandTrees x fps c [o]).Yields s [first] s' := by
    refine Run.yields_bind.mpr ⟨first, s', h, Run.yields_bind.mpr ⟨[], s', ?_, ?_⟩⟩
    · exact Run.yields_pure.mpr ⟨rfl, rfl⟩
    · exact Run.yields_pure.mpr ⟨rfl, rfl⟩
  exact expandTrees_keeps hx hone

theorem Comes.context {x : Expander R} {fps : Number R} {c : Context} {objects : List (Object R)}
    {s : DefinitionStore R} {k : Call R} (h : Comes x fps c objects s k) :
    k.context.folder = c.folder ∧ k.context.chain = c.chain := by
  induction h with
  | here c b r e rest s => exact ⟨rfl, rfl⟩
  | inside hstart h ih => exact ih
  | beside hfirst h ih => exact ih

theorem Comes.within {d : Disk} {x : Expander R} (hx : Keeps d x) {fps : Number R} {c : Context}
    {objects : List (Object R)} {s : DefinitionStore R} {k : Call R}
    (h : Comes x fps c objects s k) : k.store.Within d s := by
  induction h with
  | here c b r e rest s => exact .refl d s
  | inside hstart h ih => exact ih
  | beside hfirst h ih => exact ih.trans (expandTree_keeps hx hfirst)

/-- A call that is nested in another one stands in one more file, which was not open. -/
theorem Call.Nests.deeper {d : Disk} {x : Expander R} (hx : Keeps d x) {fps : Number R}
    {k k' : Call R} (h : k.Nests d x fps k') :
    k'.store.Within d k.store ∧ ∃ place, k'.context.chain = k.context.chain ++ [place] ∧
      place ∉ k.context.chain ∧ ∃ payload, k.store.Gives d place payload := by
  obtain ⟨o, s, hopening, hcomes⟩ := h
  obtain ⟨src, payload, -, -, hopen, hload, -, -⟩ := opening_yields.mp hopening
  obtain ⟨hgives, hwithin⟩ := DefinitionStore.load_yields hload
  exact ⟨(hcomes.within hx).trans hwithin, o.place, hcomes.context.2, hopen, payload, hgives⟩

/-- Files that were opened one inside the other since a call, all given by its store. -/
structure Call.Opened (d : Disk) (k₀ : Call R) (opened : List Place) (k : Call R) : Prop where
  chain : k.context.chain = k₀.context.chain ++ opened
  nodup : opened.Nodup
  given : ∀ p ∈ opened, p ∉ k₀.context.chain ∧ ∃ payload, k₀.store.Gives d p payload
  within : k.store.Within d k₀.store

namespace Call.Opened

variable {d : Disk} {x : Expander R} {fps : Number R} {k₀ k k' : Call R} {opened : List Place}

theorem refl (d : Disk) (k₀ : Call R) : Opened d k₀ [] k₀ :=
  ⟨(List.append_nil _).symm, List.nodup_nil, by simp, .refl d _⟩

theorem nests (h : Opened d k₀ opened k) (hx : Keeps d x) (hk : k.Nests d x fps k') :
    ∃ place, Opened d k₀ (opened ++ [place]) k' := by
  obtain ⟨hwithin, place, hchain, hnew, payload, hgives⟩ := hk.deeper hx
  rw [h.chain, List.mem_append, not_or] at hnew
  refine ⟨place, ⟨?_, ?_, ?_, hwithin.trans h.within⟩⟩
  · rw [hchain, h.chain, List.append_assoc]
  · refine List.nodup_append.mpr ⟨h.nodup, List.nodup_singleton place, ?_⟩
    intro p hp q hq hpq
    obtain rfl := List.mem_singleton.mp hq
    exact hnew.2 (hpq ▸ hp)
  · intro p hp
    rcases List.mem_append.mp hp with hp | hp
    · exact h.given p hp
    · obtain rfl := List.mem_singleton.mp hp
      exact ⟨hnew.1, payload, h.within _ _ hgives⟩

theorem length_le (h : Opened d k₀ opened k) :
    opened.length ≤ Place.limit + k₀.store.size :=
  DefinitionStore.length_le_limit h.nodup fun p hp => (h.given p hp).2

end Call.Opened

theorem keeps_expandReference (d : Disk) (fps : Number R) (depth : Nat) :
    Keeps d (expandReference d fps depth : Expander R) := by
  intro c b r s o s' h
  rw [← Instance.behind_empty b] at h
  obtain ⟨-, -, -, -, -, hwithin⟩ := follows_expandReference depth c "" b r [] s o s' h
  exact hwithin

variable {d : Disk} {fps : Number R}

/-- Depths beyond the number of files that can still be opened make no difference. -/
theorem expandReference_congr {k₀ k : Call R} {opened : List Place} {m n : Nat}
    (h : Call.Opened d k₀ opened k) (hm : Place.limit + k₀.store.size + 1 ≤ opened.length + m)
    (hn : Place.limit + k₀.store.size + 1 ≤ opened.length + n) :
    k.answer (expandReference d fps m) = k.answer (expandReference d fps n) := by
  have hlength := h.length_le
  induction m generalizing n k opened with
  | zero => omega
  | succ m ih =>
    cases n with
    | zero => omega
    | succ n =>
      refine expandOne_congr fun k' hk => ?_
      obtain ⟨place, h'⟩ := h.nests (keeps_expandReference d fps m) hk
      refine ih h' ?_ ?_ h'.length_le
      · rw [List.length_append, List.length_singleton]
        omega
      · rw [List.length_append, List.length_singleton]
        omega

/-- Expands a reference, however deep others are nested in it. -/
def expandFully (d : Disk) (fps : Number R) : Expander R := fun c b r => do
  let s ← get
  expandReference d fps (Place.limit + s.size + 1) c b r

theorem answer_expandFully_self (k : Call R) :
    k.answer (expandFully d fps) =
      k.answer (expandReference d fps (Place.limit + k.store.size + 1)) := by
  unfold Call.answer expandFully
  rw [Run.exec_get_bind]

theorem answer_expandFully {k₀ k : Call R} {opened : List Place} {n : Nat}
    (h : Call.Opened d k₀ opened k) (hn : Place.limit + k₀.store.size + 1 ≤ opened.length + n) :
    k.answer (expandFully d fps) = k.answer (expandReference d fps n) := by
  calc k.answer (expandFully d fps)
      = k.answer (expandReference d fps (Place.limit + k.store.size + 1)) :=
        answer_expandFully_self k
    _ = k.answer (expandReference d fps (Place.limit + k.store.size + 1 + n)) :=
        expandReference_congr (.refl d k) (by simp) (by rw [List.length_nil]; omega)
    _ = k.answer (expandReference d fps n) := expandReference_congr h (by omega) hn

theorem keeps_expandFully (d : Disk) (fps : Number R) :
    Keeps d (expandFully d fps : Expander R) := by
  intro c b r s o s' h
  refine keeps_expandReference d fps (Place.limit + s.size + 1) c b r s o s' ?_
  exact (answer_expandFully_self ⟨c, b, r, s⟩).symm.trans h

/-- The recursion of expansion: a reference is expanded as those in its file are. -/
theorem expandFully_eq (d : Disk) (fps : Number R) :
    (expandFully d fps : Expander R) = expandOne (expandFully d fps) d fps := by
  funext c b r
  refine Run.ext fun s => ?_
  let k : Call R := ⟨c, b, r, s⟩
  let n := Place.limit + s.size
  refine (answer_expandFully_self k).trans (expandOne_congr fun k' hk => ?_)
  obtain ⟨place, h'⟩ := (Call.Opened.refl d k).nests (keeps_expandReference d fps n) hk
  refine (answer_expandFully h' ?_).symm
  change n + 1 ≤ 1 + n
  omega

/-- No calls are nested without end. -/
theorem wellFounded_nests (d : Disk) (fps : Number R) :
    WellFounded fun k' k : Call R => k.Nests d (expandFully d fps) fps k' := by
  have hacc (k₀ : Call R) (n : Nat) : ∀ opened k, Call.Opened d k₀ opened k →
      Place.limit + k₀.store.size ≤ opened.length + n →
      Acc (fun k' k : Call R => k.Nests d (expandFully d fps) fps k') k := by
    induction n with
    | zero =>
      intro opened k h hn
      refine ⟨k, fun k' hk => ?_⟩
      obtain ⟨place, h'⟩ := h.nests (keeps_expandFully d fps) hk
      have := h'.length_le
      rw [List.length_append, List.length_singleton] at this
      omega
    | succ n ih =>
      intro opened k h hn
      refine ⟨k, fun k' hk => ?_⟩
      obtain ⟨place, h'⟩ := h.nests (keeps_expandFully d fps) hk
      refine ih _ k' h' ?_
      rw [List.length_append, List.length_singleton]
      omega
  exact ⟨fun k => hacc k (Place.limit + k.store.size) [] k (.refl d k) (by simp)⟩

/-- The recursion has no other solution, so what it gives does not depend on the depth at which it
is cut off. -/
theorem eq_expandFully {x : Expander R} (hx : x = expandOne x d fps) : x = expandFully d fps := by
  have hall (k : Call R) : k.answer (expandFully d fps) = k.answer x := by
    induction k using (wellFounded_nests d fps).induction with
    | _ k ih =>
      rw [hx, expandFully_eq]
      exact expandOne_congr ih
  funext c b r
  exact Run.ext fun s => (hall ⟨c, b, r, s⟩).symm

/-- The depth down to which references are expanded is never reached. -/
theorem expandObjects_eq (d : Disk) (fps : Number R) (c : Context) (objects : List (Object R)) :
    expandObjects d fps c objects = expandTrees (expandFully d fps) fps c objects := by
  refine Run.ext fun s => ?_
  let n := Place.limit + s.size + 1
  have hfirst : (expandObjects d fps c objects).exec s =
      (expandTrees (expandReference d fps n) fps c objects).exec s := by
    unfold expandObjects
    rw [Run.exec_get_bind]
  refine hfirst.trans (expandTrees_congr fun k hk => ?_)
  have h : Call.Opened d { k with store := s } [] k :=
    ⟨(List.append_nil _).symm, List.nodup_nil, by simp, hk.within (keeps_expandReference d fps n)⟩
  refine (answer_expandFully h ?_).symm
  change n ≤ 0 + n
  omega

end Expansion

end Storyboard
