import Mathlib.Data.List.Forall2
import Storyboard.Definitions

namespace Storyboard

theorem exists_related_of_mem {α β : Type} {rel : α → β → Prop} {xs : List α} {ys : List β} {y : β}
    (h : List.Forall₂ rel xs ys) (hy : y ∈ ys) : ∃ x ∈ xs, rel x y := by
  induction h with
  | nil => simp at hy
  | cons hr hrest ih =>
    rcases List.mem_cons.mp hy with rfl | hy
    · exact ⟨_, List.mem_cons_self, hr⟩
    · obtain ⟨x, hx, hr⟩ := ih hy
      exact ⟨x, List.mem_cons_of_mem _ hx, hr⟩

theorem forall₂_trans {α β γ : Type} {rel : α → β → Prop} {rel' : β → γ → Prop} {xs : List α}
    {ys : List β} {zs : List γ} (h : List.Forall₂ rel xs ys) (h' : List.Forall₂ rel' ys zs) :
    List.Forall₂ (fun x z => ∃ y, rel x y ∧ rel' y z) xs zs := by
  induction h generalizing zs with
  | nil => cases h'; exact .nil
  | cons hr hrest ih =>
    cases h' with
    | cons hr' hrest' => exact .cons ⟨_, hr, hr'⟩ (ih hrest')

theorem forall₂_between {α β γ : Type} {rel : α → β → Prop} {rel' : β → γ → Prop} {xs : List α}
    {zs : List γ} (h : List.Forall₂ (fun x z => ∃ y, rel x y ∧ rel' y z) xs zs) :
    ∃ ys, List.Forall₂ rel xs ys ∧ List.Forall₂ rel' ys zs := by
  induction h with
  | nil => exact ⟨[], .nil, .nil⟩
  | cons hxz _ ih =>
    obtain ⟨y, hxy, hyz⟩ := hxz
    obtain ⟨ys, hxs, hzs⟩ := ih
    exact ⟨y :: ys, .cons hxy hxs, .cons hyz hzs⟩

theorem forall₂_append_left {α β : Type} {rel : α → β → Prop} {xs ys : List α} {zs : List β}
    (h : List.Forall₂ rel (xs ++ ys) zs) :
    ∃ first rest, zs = first ++ rest ∧ List.Forall₂ rel xs first ∧ List.Forall₂ rel ys rest := by
  refine ⟨zs.take xs.length, zs.drop xs.length, (List.take_append_drop _ _).symm, ?_, ?_⟩
  · simpa using List.forall₂_take xs.length h
  · simpa using List.forall₂_drop xs.length h

theorem forall₂_concat_left {α β : Type} {rel : α → β → Prop} {xs : List α} {x : α} {zs : List β}
    (h : List.Forall₂ rel (xs ++ [x]) zs) :
    ∃ ys y, zs = ys ++ [y] ∧ List.Forall₂ rel xs ys ∧ rel x y := by
  obtain ⟨ys, rest, rfl, hys, hrest⟩ := forall₂_append_left h
  obtain ⟨y, others, hy, hothers, rfl⟩ := List.forall₂_cons_left_iff.mp hrest
  obtain rfl := List.forall₂_nil_left_iff.mp hothers
  exact ⟨ys, y, rfl, hys, hy⟩

theorem concat_of_map_eq {α β : Type} {f : α → β} {l : List α} {ys : List β} {y : β}
    (h : l.map f = ys ++ [y]) : ∃ xs x, l = xs ++ [x] ∧ xs.map f = ys ∧ f x = y := by
  obtain ⟨xs, last, hl, hxs, hlast⟩ := List.map_eq_append_iff.mp h
  obtain ⟨x, rfl, hx⟩ := List.map_eq_singleton_iff.mp hlast
  exact ⟨xs, x, hl, hxs, hx⟩

theorem forall₂_infix_left {α β : Type} {rel : α → β → Prop} {xs part : List α} {zs : List β}
    (h : List.Forall₂ rel xs zs) (hpart : part <:+: xs) :
    ∃ middle, part.zip middle <:+: xs.zip zs ∧ List.Forall₂ rel part middle := by
  obtain ⟨before, behind, rfl⟩ := hpart
  obtain ⟨front, last, rfl, hfront, hlast⟩ := forall₂_append_left h
  obtain ⟨first, middle, rfl, hfirst, hmiddle⟩ := forall₂_append_left hfront
  refine ⟨middle, ⟨before.zip first, behind.zip last, ?_⟩, hmiddle⟩
  rw [List.zip_append hfront.length_eq, List.zip_append hfirst.length_eq]

/-- A list that is related to joined lists is joined of lists that are related to them. -/
theorem forall₂_flatten_left {α β : Type} {rel : α → β → Prop} {xss : List (List α)} {zs : List β}
    (h : List.Forall₂ rel xss.flatten zs) :
    ∃ zss, zs = zss.flatten ∧ List.Forall₂ (List.Forall₂ rel) xss zss := by
  induction xss generalizing zs with
  | nil =>
    cases h
    exact ⟨[], rfl, .nil⟩
  | cons xs rest ih =>
    obtain ⟨first, others, rfl, hfirst, hothers⟩ := forall₂_append_left h
    obtain ⟨zss, rfl, hall⟩ := ih hothers
    exact ⟨first :: zss, rfl, .cons hfirst hall⟩

/-- What the elements of a list become, those related to them become as well, and related again. -/
theorem forall₂_transfer {α α' β β' : Type} {rel : α → α' → Prop} {becomes : α → β → Prop}
    {becomes' : α' → β' → Prop} {rel' : β → β' → Prop} {xs : List α} {xs' : List α'} {ys : List β}
    (hrel : List.Forall₂ rel xs xs') (hys : List.Forall₂ becomes xs ys)
    (h : ∀ x x' y, rel x x' → becomes x y → ∃ y', becomes' x' y' ∧ rel' y y') :
    ∃ ys', List.Forall₂ becomes' xs' ys' ∧ List.Forall₂ rel' ys ys' := by
  induction hrel generalizing ys with
  | nil =>
    cases hys
    exact ⟨[], .nil, .nil⟩
  | cons hx _ ih =>
    obtain ⟨y, rest, hy, hrest, rfl⟩ := List.forall₂_cons_left_iff.mp hys
    obtain ⟨y', hy', hnear⟩ := h _ _ y hx hy
    obtain ⟨rest', hrest', hall⟩ := ih hrest
    exact ⟨y' :: rest', .cons hy' hrest', .cons hnear hall⟩

/-- A relation that determines the second element determines the second list. -/
theorem forall₂_unique {α β : Type} {rel : α → β → Prop} {xs : List α} {ys zs : List β}
    (hrel : ∀ x y z, rel x y → rel x z → y = z) (h : List.Forall₂ rel xs ys)
    (h' : List.Forall₂ rel xs zs) : ys = zs := by
  induction h generalizing zs with
  | nil => cases h'; rfl
  | cons hr hrest ih =>
    cases h' with
    | cons hr' hrest' => rw [hrel _ _ _ hr hr', ih hrest']

theorem toOption_eq_some {ε α : Type} {x : Except ε α} {a : α} :
    x.toOption = some a ↔ x = .ok a := by
  cases x <;> simp [Except.toOption]

theorem bind_eq_error {ε α β : Type} {x : Except ε α} {g : α → Except ε β} {e : ε} :
    (x >>= g) = .error e ↔ x = .error e ∨ ∃ a, x = .ok a ∧ g a = .error e := by
  cases x <;> simp [bind, Except.bind]

namespace Outcome

variable {α β : Type}

@[simp] theorem pure_eq_ok {a b : α} : (pure a : Outcome α) = .ok b ↔ a = b := by
  simp [pure, Except.pure]

theorem bind_eq_ok {x : Outcome α} {f : α → Outcome β} {b : β} :
    (x >>= f) = .ok b ↔ ∃ a, x = .ok a ∧ f a = .ok b := by
  cases x <;> simp [bind, Except.bind]

theorem bind_congr_of_ok {x : Outcome α} {f g : α → Outcome β} (h : ∀ a, x = .ok a → f a = g a) :
    x >>= f = x >>= g := by
  cases x with
  | error fault => rfl
  | ok a => exact h a rfl

theorem then_eq_ok {x : Outcome Unit} {y : Outcome β} {b : β} :
    (x >>= fun _ => y) = .ok b ↔ x = .ok () ∧ y = .ok b := by
  cases x <;> simp [bind, Except.bind]

theorem map_bind {γ : Type} (x : Outcome α) (f : α → Outcome β) (g : β → γ) :
    (x >>= f).map g = x >>= fun a => (f a).map g := by
  cases x <;> rfl

theorem bind_map {γ : Type} (x : Outcome α) (f : α → β) (g : β → Outcome γ) :
    x.map f >>= g = x >>= fun a => g (f a) := by
  cases x <;> rfl

theorem map_eq_ok {x : Outcome α} {f : α → β} {b : β} :
    x.map f = .ok b ↔ ∃ a, x = .ok a ∧ f a = b := by
  cases x <;> simp [Except.map]

@[simp] theorem throw_eq_ok {f : Fault} {a : α} : (throw f : Outcome α) = .ok a ↔ False := by
  simp [throw, throwThe, MonadExceptOf.throw]

@[simp] theorem numericFault_eq_ok {c : NumericFault} {a : α} :
    (numericFault c : Outcome α) = .ok a ↔ False := by
  simp [numericFault]

/-- A list is gone through with a result exactly when each of its elements has one. -/
theorem mapM_eq_ok {f : α → Outcome β} {xs : List α} {ys : List β} :
    xs.mapM f = .ok ys ↔ List.Forall₂ (fun x y => f x = .ok y) xs ys := by
  induction xs generalizing ys with
  | nil => cases ys <;> simp
  | cons x xs ih =>
    rw [List.mapM_cons, bind_eq_ok]
    constructor
    · intro hfound
      obtain ⟨y, hy, h⟩ := hfound
      obtain ⟨rest, hrest, h⟩ := bind_eq_ok.mp h
      rw [pure_eq_ok] at h
      subst h
      exact .cons hy (ih.mp hrest)
    · intro h
      obtain _ | ⟨hy, hrest⟩ := h
      exact ⟨_, hy, bind_eq_ok.mpr ⟨_, ih.mpr hrest, rfl⟩⟩

theorem mapM_map {γ : Type} (f : α → Outcome β) (g : β → γ) (xs : List α) :
    (xs.mapM fun x => (f x).map g) = (xs.mapM f).map (List.map g) := by
  induction xs with
  | nil => rfl
  | cons x xs ih =>
    rw [List.mapM_cons, List.mapM_cons, ih, bind_map, map_bind]
    refine bind_congr fun y => ?_
    rw [bind_map, map_bind]
    rfl

theorem mapM_ok {f : α → Outcome β} {l : List α} (h : ∀ x ∈ l, ∃ y, f x = .ok y) :
    ∃ ys, l.mapM f = .ok ys := by
  induction l with
  | nil => exact ⟨[], rfl⟩
  | cons x rest ih =>
    obtain ⟨y, hy⟩ := h x List.mem_cons_self
    obtain ⟨ys, hys⟩ := ih fun x hx => h x (List.mem_cons_of_mem _ hx)
    exact ⟨y :: ys, mapM_eq_ok.mpr (.cons hy (mapM_eq_ok.mp hys))⟩

/-- A computation that gives a result. -/
def Returns (x : Outcome α) : Prop := ∃ a, x = .ok a

@[simp] theorem returns_ok (a : α) : Returns (.ok a) := ⟨a, rfl⟩

@[simp] theorem returns_pure (a : α) : Returns (pure a) := ⟨a, rfl⟩

@[simp] theorem ok_bind (a : α) (f : α → Outcome β) : (.ok a : Outcome α) >>= f = f a := rfl

theorem returns_bind {x : Outcome α} {f : α → Outcome β} :
    Returns (x >>= f) ↔ ∃ a, x = .ok a ∧ Returns (f a) := by
  constructor
  · intro h
    obtain ⟨b, hb⟩ := h
    obtain ⟨a, ha, hb⟩ := bind_eq_ok.mp hb
    exact ⟨a, ha, b, hb⟩
  · intro h
    obtain ⟨a, ha, b, hb⟩ := h
    exact ⟨b, bind_eq_ok.mpr ⟨a, ha, hb⟩⟩

theorem Returns.of_bind {x : Outcome α} {f : α → Outcome β} (h : Returns (x >>= f)) :
    Returns x := by
  obtain ⟨a, ha, -⟩ := returns_bind.mp h
  exact ⟨a, ha⟩

theorem Returns.bind {x : Outcome α} {f : α → Outcome β} (hx : Returns x)
    (hf : ∀ a, x = .ok a → Returns (f a)) : Returns (x >>= f) := by
  obtain ⟨a, ha⟩ := hx
  exact returns_bind.mpr ⟨a, ha, hf a ha⟩

theorem returns_bind_iff {x : Outcome α} {f : α → Outcome β} {p : Prop}
    (h : ∀ a, x = .ok a → (Returns (f a) ↔ p)) : Returns (x >>= f) ↔ Returns x ∧ p := by
  rw [returns_bind]
  constructor
  · intro hfound
    obtain ⟨a, ha, hf⟩ := hfound
    exact ⟨⟨a, ha⟩, (h a ha).mp hf⟩
  · intro hfound
    obtain ⟨⟨a, ha⟩, hp⟩ := hfound
    exact ⟨a, ha, (h a ha).mpr hp⟩

theorem returns_bind_and {x : Outcome α} {f : α → Outcome β} {p q : Prop} (hx : Returns x ↔ p)
    (hf : ∀ a, Returns (f a) ↔ q) : Returns (x >>= f) ↔ p ∧ q := by
  rw [returns_bind_iff fun a _ => hf a, hx]

theorem returns_bind_of {x : Outcome α} {f : α → Outcome β} {q : Prop} (hx : Returns x)
    (hf : ∀ a, Returns (f a) ↔ q) : Returns (x >>= f) ↔ q := by
  rw [returns_bind_iff fun a _ => hf a, and_iff_right hx]

theorem returns_bind_total {x : Outcome α} {f : α → Outcome β} (h : ∀ a, Returns (f a)) :
    Returns (x >>= f) ↔ Returns x := by
  rw [returns_bind_iff fun a _ => iff_true_intro (h a), and_true]

@[simp] theorem returns_map {x : Outcome α} {f : α → β} : Returns (f <$> x) ↔ Returns x :=
  returns_bind_total (f := fun a => .ok (f a)) fun _ => returns_ok _

@[simp] theorem returns_numericFault (c : NumericFault) :
    Returns (numericFault c : Outcome α) ↔ False := by
  simp [Returns]

theorem returns_mapM {f : α → Outcome β} {xs : List α} :
    Returns (xs.mapM f) ↔ ∀ x ∈ xs, Returns (f x) := by
  constructor
  · intro h x hx
    obtain ⟨ys, hys⟩ := h
    obtain ⟨y, -, hy⟩ := exists_related_of_mem (mapM_eq_ok.mp hys).flip hx
    exact ⟨y, hy⟩
  · intro h
    exact mapM_ok h

end Outcome

namespace Run

variable {σ α β : Type}

/-- From a state a computation gives a result and leaves another state. -/
def Yields (r : Run σ α) (s : σ) (a : α) (s' : σ) : Prop := r.exec s = (.ok a, s')

/-- From a state a computation is refused. -/
def Fails (r : Run σ α) (s : σ) (f : Fault) : Prop := (r.exec s).1 = .error f

/-- A computation whose result passes a test gives a result. -/
theorem yields_of_test {r : Run σ α} {s : σ} (test : α → Bool)
    (h : (r.exec s).1.toOption.any test = true) : ∃ a s', r.Yields s a s' ∧ test a = true := by
  rcases he : r.exec s with ⟨f | a, s'⟩
  · rw [he] at h
    cases h
  · rw [he] at h
    exact ⟨a, s', he, h⟩

/-- A computation is refused if it is where its result does not count. -/
theorem fails_of_map {r : Run σ α} {s : σ} {f : Fault} (g : α → β)
    (h : (r.exec s).1.map g = .error f) : r.Fails s f := by
  rw [Fails]
  cases ha : (r.exec s).1 with
  | ok a =>
    rw [ha] at h
    cases h
  | error f' =>
    rw [ha] at h
    cases h
    rfl

theorem exec_bind (r : Run σ α) (g : α → Run σ β) (s : σ) :
    (r >>= g).exec s =
      match r.exec s with
      | (.ok a, t) => (g a).exec t
      | (.error f, t) => (.error f, t) := by
  have h : (r >>= g).exec s =
      (r.run.run s >>= fun p => (ExceptT.bindCont g p.1).run p.2 : Id (Outcome β × σ)) := rfl
  rw [h]
  change (ExceptT.bindCont g (r.exec s).1).run (r.exec s).2 = _
  cases r.exec s with
  | mk a t => cases a <;> rfl

theorem exec_get_bind (g : σ → Run σ β) (s : σ) :
    ((get : Run σ σ) >>= g).exec s = (g s).exec s := rfl

theorem exec_modify_bind (m : σ → σ) (g : PUnit → Run σ β) (s : σ) :
    ((modify m : Run σ PUnit) >>= g).exec s = (g ⟨⟩).exec (m s) := rfl

theorem exec_lift_bind (o : Outcome α) (g : α → Run σ β) (s : σ) :
    (Run.lift o >>= g).exec s =
      match o with
      | .ok a => (g a).exec s
      | .error f => (.error f, s) := by
  rw [exec_bind]
  cases o <;> rfl

theorem exec_ofDisk_bind (x : Except FileFault α) (g : α → Run σ β) (s : σ) :
    (Run.ofDisk x >>= g).exec s =
      match x with
      | .ok a => (g a).exec s
      | .error cause => (.error (.read cause), s) := by
  rw [Run.ofDisk, exec_lift_bind]
  cases x <;> rfl

theorem yields_bind {r : Run σ α} {g : α → Run σ β} {s s' : σ} {b : β} :
    (r >>= g).Yields s b s' ↔ ∃ a t, r.Yields s a t ∧ (g a).Yields t b s' := by
  unfold Yields
  rw [exec_bind]
  rcases r.exec s with ⟨a | a, t⟩ <;> simp

theorem fails_bind {r : Run σ α} {g : α → Run σ β} {s : σ} {f : Fault} :
    (r >>= g).Fails s f ↔ r.Fails s f ∨ ∃ a t, r.Yields s a t ∧ (g a).Fails t f := by
  unfold Fails Yields
  rw [exec_bind]
  rcases r.exec s with ⟨a | a, t⟩ <;> simp

@[simp] theorem yields_pure {a b : α} {s s' : σ} :
    (pure a : Run σ α).Yields s b s' ↔ a = b ∧ s = s' := by
  change ((.ok a, s) : Outcome α × σ) = (.ok b, s') ↔ _
  simp

@[simp] theorem fails_pure {a : α} {s : σ} {f : Fault} :
    (pure a : Run σ α).Fails s f ↔ False := by
  change (.ok a : Outcome α) = .error f ↔ _
  simp

@[simp] theorem yields_lift {o : Outcome α} {a : α} {s s' : σ} :
    (Run.lift o : Run σ α).Yields s a s' ↔ o = .ok a ∧ s = s' := by
  change ((o, s) : Outcome α × σ) = (.ok a, s') ↔ _
  simp

@[simp] theorem fails_lift {o : Outcome α} {s : σ} {f : Fault} :
    (Run.lift o : Run σ α).Fails s f ↔ o = .error f := Iff.rfl

@[simp] theorem yields_throw {f : Fault} {a : α} {s s' : σ} :
    (throw f : Run σ α).Yields s a s' ↔ False := by
  change ((.error f, s) : Outcome α × σ) = (.ok a, s') ↔ _
  simp

@[simp] theorem fails_throw {f g : Fault} {s : σ} :
    (throw f : Run σ α).Fails s g ↔ f = g := by
  change (.error f : Outcome α) = .error g ↔ _
  simp

@[simp] theorem yields_get {s t s' : σ} : (get : Run σ σ).Yields s t s' ↔ s = t ∧ s = s' := by
  change ((.ok s, s) : Outcome σ × σ) = (.ok t, s') ↔ _
  simp

@[simp] theorem fails_get {s : σ} {f : Fault} : (get : Run σ σ).Fails s f ↔ False := by
  change (.ok s : Outcome σ) = .error f ↔ _
  simp

@[simp] theorem yields_set {s t s' : σ} {u : PUnit} :
    (set t : Run σ PUnit).Yields s u s' ↔ t = s' := by
  change ((.ok ⟨⟩, t) : Outcome PUnit × σ) = (.ok u, s') ↔ _
  simp

@[simp] theorem fails_set {s t : σ} {f : Fault} :
    (set t : Run σ PUnit).Fails s f ↔ False := by
  change (.ok ⟨⟩ : Outcome PUnit) = .error f ↔ _
  simp

@[simp] theorem yields_modify {g : σ → σ} {s s' : σ} {u : PUnit} :
    (modify g : Run σ PUnit).Yields s u s' ↔ g s = s' := by
  change ((.ok ⟨⟩, g s) : Outcome PUnit × σ) = (.ok u, s') ↔ _
  simp

@[simp] theorem fails_modify {g : σ → σ} {s : σ} {f : Fault} :
    (modify g : Run σ PUnit).Fails s f ↔ False := by
  change (.ok ⟨⟩ : Outcome PUnit) = .error f ↔ _
  simp

theorem yields_lift_bind {o : Outcome α} {g : α → Run σ β} {s s' : σ} {b : β} :
    (Run.lift o >>= g).Yields s b s' ↔ ∃ a, o = .ok a ∧ (g a).Yields s b s' := by
  rw [yields_bind]
  constructor
  · intro hfound
    obtain ⟨a, t, h, hg⟩ := hfound
    obtain ⟨rfl, rfl⟩ := yields_lift.mp h
    exact ⟨a, rfl, hg⟩
  · intro h
    obtain ⟨a, rfl, hg⟩ := h
    exact ⟨a, s, yields_lift.mpr ⟨rfl, rfl⟩, hg⟩

theorem fails_lift_bind {o : Outcome α} {g : α → Run σ β} {s : σ} {f : Fault} :
    (Run.lift o >>= g).Fails s f ↔ o = .error f ∨ ∃ a, o = .ok a ∧ (g a).Fails s f := by
  cases o <;> simp [fails_bind]

theorem yields_get_bind {g : σ → Run σ β} {s s' : σ} {b : β} :
    ((get : Run σ σ) >>= g).Yields s b s' ↔ (g s).Yields s b s' := by
  simp [yields_bind]

theorem fails_get_bind {g : σ → Run σ β} {s : σ} {f : Fault} :
    ((get : Run σ σ) >>= g).Fails s f ↔ (g s).Fails s f := by
  simp [fails_bind]

theorem yields_set_bind {t : σ} {g : PUnit → Run σ β} {s s' : σ} {b : β} :
    ((set t : Run σ PUnit) >>= g).Yields s b s' ↔ (g ⟨⟩).Yields t b s' := by
  simp only [yields_bind, yields_set, exists_eq_left']
  exact ⟨fun ⟨_, h⟩ => h, fun h => ⟨⟨⟩, h⟩⟩

theorem fails_set_bind {t : σ} {g : PUnit → Run σ β} {s : σ} {f : Fault} :
    ((set t : Run σ PUnit) >>= g).Fails s f ↔ (g ⟨⟩).Fails t f := by
  simp only [fails_bind, fails_set, yields_set, false_or, exists_eq_left']
  exact ⟨fun ⟨_, h⟩ => h, fun h => ⟨⟨⟩, h⟩⟩

theorem yields_modify_bind {m : σ → σ} {g : PUnit → Run σ β} {s s' : σ} {b : β} :
    ((modify m : Run σ PUnit) >>= g).Yields s b s' ↔ (g ⟨⟩).Yields (m s) b s' := by
  simp only [yields_bind, yields_modify, exists_eq_left']
  exact ⟨fun ⟨_, h⟩ => h, fun h => ⟨⟨⟩, h⟩⟩

theorem fails_modify_bind {m : σ → σ} {g : PUnit → Run σ β} {s : σ} {f : Fault} :
    ((modify m : Run σ PUnit) >>= g).Fails s f ↔ (g ⟨⟩).Fails (m s) f := by
  simp only [fails_bind, fails_modify, yields_modify, false_or, exists_eq_left']
  exact ⟨fun ⟨_, h⟩ => h, fun h => ⟨⟨⟩, h⟩⟩

@[simp] theorem yields_ofDisk {x : Except FileFault α} {a : α} {s s' : σ} :
    (Run.ofDisk x : Run σ α).Yields s a s' ↔ x = .ok a ∧ s = s' := by
  cases x <;> simp [Run.ofDisk, Except.mapError]

/-- A computation with a result leaves a state that is related to the one before. -/
def Leaves (rel : σ → σ → Prop) (r : Run σ α) : Prop := ∀ s a s', r.Yields s a s' → rel s s'

theorem Leaves.lift {rel : σ → σ → Prop} (hrefl : ∀ s, rel s s) (o : Outcome α) :
    (Run.lift o).Leaves rel := by
  intro s a s' h
  obtain ⟨-, rfl⟩ := yields_lift.mp h
  exact hrefl s

theorem Leaves.bind {rel : σ → σ → Prop} (htrans : ∀ s t u, rel s t → rel t u → rel s u)
    {r : Run σ α} {g : α → Run σ β} (hr : r.Leaves rel) (hg : ∀ a, (g a).Leaves rel) :
    (r >>= g).Leaves rel := by
  intro s b s' h
  obtain ⟨a, t, hfirst, hrest⟩ := yields_bind.mp h
  exact htrans _ _ _ (hr s a t hfirst) (hg a t b s' hrest)

theorem fails_ofDisk {x : Except FileFault α} {s : σ} {f : Fault} :
    (Run.ofDisk x : Run σ α).Fails s f ↔ ∃ cause, x = .error cause ∧ f = .read cause := by
  cases x <;> simp [Run.ofDisk, Except.mapError, eq_comm]

end Run

end Storyboard
