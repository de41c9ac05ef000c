import Storyboard.Proofs.Exact
import Storyboard.Proofs.Keyframes

namespace Storyboard

namespace Exact

variable {a b c : Exact}

theorem eq_iff : a.eq b = true ↔ a = b ∧ a ≠ .nan := by
  cases a <;> cases b <;> simp [eq]

theorem lt_asymm (h : a.lt b = true) : b.lt a = false := by
  cases a with
  | nan => cases h
  | infinite m => cases b <;> simp_all [lt]
  | finite p =>
    cases b with
    | nan => cases h
    | infinite n => simp_all [lt]
    | finite q =>
      have hlt : p < q := by simpa [lt] using h
      simpa [lt] using hlt.le

/-- What is not below what is not below a third is not below it, if all can be compared. -/
theorem not_lt_trans (ha : a ≠ .nan) (hb : b ≠ .nan) (hc : c ≠ .nan) (hab : a.lt b = false)
    (hbc : b.lt c = false) : a.lt c = false := by
  cases a with
  | nan => exact absurd rfl ha
  | infinite l =>
    cases b with
    | nan => exact absurd rfl hb
    | infinite m => cases c <;> cases l <;> cases m <;> simp_all [lt]
    | finite q => cases c <;> cases l <;> simp_all [lt]
  | finite p =>
    cases b with
    | nan => exact absurd rfl hb
    | infinite m => cases c <;> cases m <;> simp_all [lt]
    | finite q =>
      cases c with
      | nan => exact absurd rfl hc
      | infinite n => simp_all [lt]
      | finite r =>
        simp only [lt, decide_eq_false_iff_not, not_lt] at hab hbc ⊢
        exact hbc.trans hab

/-- Of two things that can be compared neither is below the other exactly if they are equal. -/
theorem eq_iff_not_lt (ha : a ≠ .nan) (hb : b ≠ .nan) :
    a.eq b = true ↔ a.lt b = false ∧ b.lt a = false := by
  cases a with
  | nan => exact absurd rfl ha
  | infinite m =>
    cases b with
    | nan => exact absurd rfl hb
    | infinite n => cases m <;> cases n <;> simp [eq, lt]
    | finite q => cases m <;> simp [eq, lt]
  | finite p =>
    cases b with
    | nan => exact absurd rfl hb
    | infinite n => cases n <;> simp [eq, lt]
    | finite q =>
      simp only [eq, lt, decide_eq_true_eq, decide_eq_false_iff_not, not_lt]
      exact ⟨fun h => ⟨h.ge, h.le⟩, fun h => le_antisymm h.2 h.1⟩

theorem le_iff_not_lt (ha : a ≠ .nan) (hb : b ≠ .nan) : a.le b = true ↔ b.lt a = false := by
  rw [le, Bool.or_eq_true, eq_iff_not_lt ha hb]
  constructor
  · intro h
    rcases h with hlt | heq
    · exact lt_asymm hlt
    · exact heq.2
  · intro h
    cases hlt : a.lt b with
    | true => exact .inl rfl
    | false => exact .inr ⟨rfl, h⟩

end Exact

namespace Number

variable {R : Type} [Scalar R] {a b c : Number R}

theorem isOrdered_iff : a.isOrdered = true ↔ a.exact ≠ .nan := by
  constructor
  · intro h hnan
    rw [isOrdered, eq, hnan] at h
    cases h
  · exact Exact.eq_refl

theorem not_lt_trans (ha : a.isOrdered = true) (hb : b.isOrdered = true) (hc : c.isOrdered = true)
    (hab : a.lt b = false) (hbc : b.lt c = false) : a.lt c = false :=
  Exact.not_lt_trans (isOrdered_iff.mp ha) (isOrdered_iff.mp hb) (isOrdered_iff.mp hc) hab hbc

theorem eq_iff_not_lt (ha : a.isOrdered = true) (hb : b.isOrdered = true) :
    a.eq b = true ↔ a.lt b = false ∧ b.lt a = false :=
  Exact.eq_iff_not_lt (isOrdered_iff.mp ha) (isOrdered_iff.mp hb)

theorem le_iff_not_lt (ha : a.isOrdered = true) (hb : b.isOrdered = true) :
    a.le b = true ↔ b.lt a = false :=
  Exact.le_iff_not_lt (isOrdered_iff.mp ha) (isOrdered_iff.mp hb)

theorem isOrdered_int (n : Int) : (int n : Number R).isOrdered = true := by
  simp [isOrdered, eq, exact, Exact.eq]

theorem int_not_lt {m n : Int} (h : n ≤ m) : (int m : Number R).lt (int n) = false := by
  simpa [lt, exact, Exact.lt] using h

/-- A whole number is at most what can be compared and is not below it. -/
theorem int_le_iff {m : Int} :
    (int m).le a = true ↔ a.isOrdered = true ∧ a.lt (int m) = false := by
  constructor
  · intro h
    have ha : a.isOrdered = true := by
      rw [isOrdered_iff]
      intro hnan
      rw [le, hnan] at h
      cases h
    exact ⟨ha, (le_iff_not_lt (isOrdered_int m) ha).mp h⟩
  · exact fun h => (le_iff_not_lt (isOrdered_int m) h.1).mpr h.2

theorem exact_of_eq (h : a.eq b = true) : a.exact = b.exact := (Exact.eq_iff.mp h).1

/-- The same numbers are the same as others. -/
theorem eq_congr_left (h : a.eq b = true) (c : Number R) : a.eq c = b.eq c := by
  rw [eq, eq, exact_of_eq h]

theorem eq_congr_right (h : a.eq b = true) (c : Number R) : c.eq a = c.eq b := by
  rw [eq, eq, exact_of_eq h]

theorem eq_comm (a b : Number R) : a.eq b = b.eq a := by
  rw [Bool.eq_iff_iff, eq, eq, Exact.eq_iff, Exact.eq_iff]
  constructor
  · rintro ⟨h, hnan⟩
    exact ⟨h.symm, h ▸ hnan⟩
  · rintro ⟨h, hnan⟩
    exact ⟨h.symm, h ▸ hnan⟩

theorem int_eq_int {m n : Int} : (int m : Number R).eq (int n) = true ↔ m = n := by
  simp [eq, exact, Exact.eq]

end Number

namespace Order

variable {α : Type} {lt : α → α → Bool} {r : α → α → Prop} {P : α → Prop}

/-- In a descending list later elements are below, or equal and were in front. -/
def Descends (lt : α → α → Bool) (r : α → α → Prop) (a b : α) : Prop :=
  lt b a = true ∨ lt a b = false ∧ r b a

theorem insert_descends (hasymm : ∀ a b, lt a b = true → lt b a = false)
    (htrans : ∀ a b c, P a → P b → P c → lt a b = false → lt b c = false → lt a c = false)
    {x : α} {ys : List α} (hx : P x) (hys : ∀ y ∈ ys, P y) (hbehind : ∀ y ∈ ys, r y x)
    (h : ys.Pairwise (Descends lt r)) : (insert lt x ys).Pairwise (Descends lt r) := by
  induction ys with
  | nil => simp [insert]
  | cons y ys ih =>
    obtain ⟨hy, hrest⟩ := List.pairwise_cons.mp h
    obtain ⟨hPy, hPys⟩ := List.forall_mem_cons.mp hys
    obtain ⟨hyx, hysx⟩ := List.forall_mem_cons.mp hbehind
    rw [insert]
    split
    · rename_i hlt
      refine List.pairwise_cons.mpr ⟨fun z hz => ?_, ih hPys hysx hrest⟩
      rcases List.mem_cons.mp ((insert_perm lt x ys).mem_iff.mp hz) with rfl | hz
      · exact .inl hlt
      · exact hy z hz
    · rename_i hnot
      have hxy : lt x y = false := by simpa using hnot
      refine List.pairwise_cons.mpr ⟨List.forall_mem_cons.mpr ⟨.inr ⟨hxy, hyx⟩, ?_⟩, h⟩
      intro z hz
      have hyz : lt y z = false := by
        rcases hy z hz with hlt | ⟨hnot, -⟩
        · exact hasymm _ _ hlt
        · exact hnot
      exact .inr ⟨htrans _ _ _ hx hPy (hPys z hz) hxy hyz, hysx z hz⟩

/-- Sorting is stable: an element stands in front of another if it is below it, or if neither is
below the other and it stood in front before. -/
theorem sort_stable (hasymm : ∀ a b, lt a b = true → lt b a = false)
    (htrans : ∀ a b c, P a → P b → P c → lt a b = false → lt b c = false → lt a c = false)
    {xs : List α} (hP : ∀ x ∈ xs, P x) (h : xs.Pairwise r) :
    (sort lt xs).Pairwise fun a b => lt a b = true ∨ lt b a = false ∧ r a b := by
  have hfold {sorted : List α} (hsorted : ∀ y ∈ sorted, P y)
      (hbehind : ∀ y ∈ sorted, ∀ x ∈ xs, r y x) (hdescends : sorted.Pairwise (Descends lt r)) :
      (xs.foldl (fun s x => insert lt x s) sorted).Pairwise (Descends lt r) := by
    induction xs generalizing sorted with
    | nil => exact hdescends
    | cons x xs ih =>
      obtain ⟨hx, hxs⟩ := List.forall_mem_cons.mp hP
      obtain ⟨hfront, hrest⟩ := List.pairwise_cons.mp h
      have hinsert : ∀ y ∈ insert lt x sorted, y = x ∨ y ∈ sorted := fun y hy =>
        List.mem_cons.mp ((insert_perm lt x sorted).mem_iff.mp hy)
      refine ih hxs hrest (fun y hy => ?_) (fun y hy z hz => ?_) ?_
      · rcases hinsert y hy with rfl | hy
        · exact hx
        · exact hsorted y hy
      · rcases hinsert y hy with rfl | hy
        · exact hfront z hz
        · exact hbehind y hy z (List.mem_cons_of_mem _ hz)
      · exact insert_descends hasymm htrans hx hsorted
          (fun y hy => hbehind y hy x List.mem_cons_self) hdescends
  refine List.pairwise_reverse.mpr (hfold ?_ ?_ .nil) <;> simp

theorem filter_insert {p : α → Bool} (h : ∀ a b, p a = true → p b = true → lt a b = false) (x : α)
    (ys : List α) : (insert lt x ys).filter p = (x :: ys).filter p := by
  induction ys with
  | nil => rfl
  | cons y ys ih =>
    rw [insert]
    split
    · rename_i hlt
      have hapart : ¬ (p x = true ∧ p y = true) := by
        intro hboth
        rw [h x y hboth.1 hboth.2] at hlt
        cases hlt
      rw [List.filter_cons, ih]
      by_cases hx : p x = true <;> by_cases hy : p y = true <;> simp_all
    · rfl

/-- Elements none of which is below another one stay in their order. -/
theorem filter_sort_of {p : α → Bool} (h : ∀ a b, p a = true → p b = true → lt a b = false)
    (xs : List α) : (sort lt xs).filter p = xs.filter p := by
  have hfold (sorted : List α) : (xs.foldl (fun s x => insert lt x s) sorted).filter p =
      (xs.filter p).reverse ++ sorted.filter p := by
    induction xs generalizing sorted with
    | nil => rfl
    | cons x xs ih =>
      rw [List.foldl_cons, ih, filter_insert h]
      by_cases hx : p x = true <;> simp [hx]
  rw [sort, List.filter_reverse, hfold]
  simp

section

variable {key : α → Int}

/-- Whether the one element has a smaller key than the other. -/
def below (key : α → Int) (a b : α) : Bool := decide (key a < key b)

/-- Sorting by keys keeps the elements of one key in their order. -/
theorem filter_sort (key : α → Int) (xs : List α) (n : Int) :
    (sort (below key) xs).filter (key · = n) = xs.filter (key · = n) := by
  refine filter_sort_of (fun a b ha hb => ?_) xs
  simp only [decide_eq_true_eq] at ha hb
  simp [below, ha, hb]

theorem sort_ascending (key : α → Int) (xs : List α) :
    (sort (below key) xs).Pairwise fun a b => key a ≤ key b := by
  refine (sort_pairwise ?_ ?_ xs).imp ?_
  · intro a b h
    simp only [below, decide_eq_true_eq, decide_eq_false_iff_not] at h ⊢
    omega
  · intro a b c hab hbc
    simp only [below, decide_eq_false_iff_not] at hab hbc ⊢
    omega
  · intro a b h
    simpa [below] using h

theorem mem_iff_of_filter_eq {xs ys : List α}
    (h : ∀ n, xs.filter (key · = n) = ys.filter (key · = n)) {a : α} : a ∈ xs ↔ a ∈ ys := by
  have : a ∈ xs.filter (key · = key a) ↔ a ∈ ys.filter (key · = key a) := by rw [h]
  simpa using this

/-- Lists in the order of keys are the same if they have the same elements of each key. -/
theorem eq_of_filter_eq (key : α → Int) {xs ys : List α}
    (hx : xs.Pairwise fun a b => key a ≤ key b) (hy : ys.Pairwise fun a b => key a ≤ key b)
    (h : ∀ n, xs.filter (key · = n) = ys.filter (key · = n)) : xs = ys := by
  induction xs generalizing ys with
  | nil =>
    cases ys with
    | nil => rfl
    | cons y ys => exact absurd ((mem_iff_of_filter_eq h).mpr List.mem_cons_self) List.not_mem_nil
  | cons x xs ih =>
    cases ys with
    | nil => exact absurd ((mem_iff_of_filter_eq h).mp List.mem_cons_self) List.not_mem_nil
    | cons y ys =>
      obtain ⟨hxs, hxrest⟩ := List.pairwise_cons.mp hx
      obtain ⟨hys, hyrest⟩ := List.pairwise_cons.mp hy
      -- Both heads have the least key, and each stands first among the elements of that key.
      have hle : key x ≤ key y := by
        rcases List.mem_cons.mp ((mem_iff_of_filter_eq h).mpr List.mem_cons_self) with he | hmem
        · rw [he]
        · exact hxs y hmem
      have hge : key y ≤ key x := by
        rcases List.mem_cons.mp ((mem_iff_of_filter_eq h).mp List.mem_cons_self) with he | hmem
        · rw [he]
        · exact hys x hmem
      have hkey : key y = key x := by omega
      have hhead := h (key x)
      simp only [List.filter_cons, hkey, decide_true, ↓reduceIte, List.cons.injEq] at hhead
      obtain rfl := hhead.1
      refine congrArg (x :: ·) (ih hxrest hyrest fun n => ?_)
      have hn := h n
      by_cases hfirst : key x = n <;> simpa [List.filter_cons, hfirst] using hn

/-- The last of the elements with the greatest key. -/
def Latest (key : α → Int) (xs : List α) (x : α) : Prop :=
  ∃ before behind, xs = before ++ x :: behind ∧ (∀ y ∈ before, key y ≤ key x) ∧
    ∀ y ∈ behind, key y < key x

theorem Latest.le {xs : List α} {x : α} (h : Latest key xs x) : ∀ y ∈ xs, key y ≤ key x := by
  obtain ⟨before, behind, rfl, hbefore, hbehind⟩ := h
  intro y hy
  rcases List.mem_append.mp hy with hy | hy
  · exact hbefore y hy
  · rcases List.mem_cons.mp hy with rfl | hy
    · exact le_refl _
    · exact (hbehind y hy).le

theorem Latest.of_map {β : Type} {f : β → α} {xs : List β} {x : α}
    (h : Latest key (xs.map f) x) : ∃ y, f y = x ∧ Latest (fun y => key (f y)) xs y := by
  obtain ⟨before, behind, hxs, hbefore, hbehind⟩ := h
  obtain ⟨front, rest, rfl, rfl, hrest⟩ := List.map_eq_append_iff.mp hxs
  obtain ⟨y, rest, rfl, rfl, rfl⟩ := List.map_eq_cons_iff.mp hrest
  rw [List.forall_mem_map] at hbefore hbehind
  exact ⟨y, rfl, front, rest, rfl, hbefore, hbehind⟩

theorem exists_sort_eq_concat (key : α → Int) {xs : List α} (h : xs ≠ []) :
    ∃ front x, sort (below key) xs = front ++ [x] := by
  have hsort : sort (below key) xs ≠ [] := fun hnil =>
    h (List.perm_nil.mp (hnil ▸ (sort_perm _ xs).symm))
  exact (List.eq_nil_or_concat' _).resolve_left hsort

/-- The last element in the order of keys is the last one with the greatest key. -/
theorem latest_of_sort {xs front : List α} {x : α}
    (h : sort (below key) xs = front ++ [x]) : Latest key xs x := by
  have hle : ∀ y ∈ xs, key y ≤ key x := by
    intro y hy
    have hsorted := sort_ascending key xs
    rw [h] at hsorted
    have hmem : y ∈ front ++ [x] := h ▸ (sort_perm _ xs).mem_iff.mpr hy
    rcases List.mem_append.mp hmem with hfront | hlast
    · exact (List.pairwise_append.mp hsorted).2.2 y hfront x List.mem_cons_self
    · rw [List.mem_singleton.mp hlast]
  have hfilter := filter_sort key xs (key x)
  rw [h, List.filter_append, List.filter_singleton, decide_eq_true rfl, cond_true] at hfilter
  obtain ⟨first, rest, rfl, -, hrest⟩ := List.filter_eq_append_iff.mp hfilter.symm
  obtain ⟨skipped, behind, rfl, -, -, hbehind⟩ := List.filter_eq_cons_iff.mp hrest
  refine ⟨first ++ skipped, behind, by simp, fun y hy => hle y ?_, fun y hy => ?_⟩
  · rcases List.mem_append.mp hy with hy | hy <;> simp [hy]
  · have hne : key y ≠ key x := by simpa using List.filter_eq_nil_iff.mp hbehind y hy
    have := hle y (by simp [hy])
    omega

end

end Order

end Storyboard
