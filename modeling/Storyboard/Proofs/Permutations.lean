import Mathlib.Algebra.GroupWithZero.Nat
import Mathlib.Data.List.Perm.Basic
import Storyboard.Order

namespace Storyboard.Order

variable {α : Type}

section

variable [BEq α] {c : α}

/-- A part of an array that begins at a place has what stands in front of a later place, and the
part from there on. -/
theorem count_rest (a : Array α) (i k : Nat) :
    (a.extract i a.size).count c =
      (a.extract i (i + k)).count c + (a.extract (i + k) a.size).count c := by
  rw [← Array.count_append, Array.extract_append_extract, Nat.min_eq_left (Nat.le_add_right i k)]
  congr 1
  grind

theorem count_rest_cons {a : Array α} {i : Nat} {x : α} (h : a[i]? = some x) :
    (a.extract i a.size).count c = #[x].count c + (a.extract (i + 1) a.size).count c := by
  obtain ⟨hi, rfl⟩ := Array.getElem?_eq_some_iff.mp h
  rw [count_rest a i 1, Array.extract_succ_right (Nat.lt_succ_self i) hi,
    Array.extract_empty_of_stop_le_start (Nat.le_refl i)]
  rfl

theorem count_rest_end {a : Array α} {i : Nat} (h : a.size ≤ i) :
    (a.extract i a.size).count c = 0 := by
  rw [Array.extract_empty_of_size_le_start h]
  rfl

/-- The first elements of an array are those up to an earlier place, and what follows there. -/
theorem count_front (a : Array α) (i k : Nat) :
    (a.extract 0 i).count c =
      (a.extract 0 (i - k)).count c + (a.extract (i - k) i).count c := by
  rw [← Array.count_append, Array.extract_append_extract, Nat.min_eq_left (Nat.zero_le _),
    Nat.max_eq_right (Nat.sub_le i k)]

theorem count_front_concat {a : Array α} {i : Nat} {x : α} (hi : 1 ≤ i) (h : a[i - 1]? = some x) :
    (a.extract 0 i).count c = (a.extract 0 (i - 1)).count c + #[x].count c := by
  obtain ⟨hlt, rfl⟩ := Array.getElem?_eq_some_iff.mp h
  obtain ⟨n, rfl⟩ : ∃ n, i = n + 1 := ⟨i - 1, by omega⟩
  rw [Array.extract_succ_right (Nat.succ_pos n) hlt, Array.push_eq_append, Array.count_append]
  rfl

theorem count_front_zero (a : Array α) : (a.extract 0 0).count c = 0 := by
  rw [Array.extract_empty_of_stop_le_start (Nat.le_refl 0)]
  rfl

theorem count_all (a : Array α) (k : Nat) :
    a.count c = (a.extract 0 k).count c + (a.extract k a.size).count c := by
  have h := count_rest (c := c) a 0 k
  rwa [Nat.zero_add, Array.extract_size] at h

/-- What is left of two runs may be put out in either order. -/
theorem count_finish {p : Prop} [Decidable p] (out s t : Array α) (patience : Nat) :
    (if p then (out ++ t ++ s, patience) else (out ++ s ++ t, patience)).1.count c =
      out.count c + s.count c + t.count c := by
  split
  · rw [Array.count_append, Array.count_append, Nat.add_right_comm]
  · rw [Array.count_append, Array.count_append]

theorem count_finish_back {p : Prop} [Decidable p] (out s t : Array α) (patience : Nat) :
    (if p then (t ++ s ++ out, patience) else (s ++ t ++ out, patience)).1.count c =
      s.count c + t.count c + out.count c := by
  split
  · rw [Array.count_append, Array.count_append, Nat.add_comm (t.count c)]
  · rw [Array.count_append, Array.count_append]

/-- A merge from the front keeps what it has put out, and what is left of the two runs. -/
def KeepsFront (lt : α → α → Bool) (a b : Array α) (c : α) (fuel : Nat) : Prop :=
  ∀ pace patience i j out, (mergeFront lt a b fuel pace patience i j out).1.count c =
    out.count c + (a.extract i a.size).count c + (b.extract j b.size).count c

theorem keepsFront_heads {lt : α → α → Bool} {a b : Array α} {fuel : Nat}
    (ih : KeepsFront lt a b c fuel) {i j : Nat} {x y : α} (hx : a[i]? = some x)
    (hy : b[j]? = some y) (left right patience : Nat) (out : Array α) :
    (mergeFront lt a b (fuel + 1) (.heads left right) patience i j out).1.count c =
      out.count c + (a.extract i a.size).count c + (b.extract j b.size).count c := by
  have hfirst := count_rest_cons (c := c) hx
  have hsecond := count_rest_cons (c := c) hy
  have hend := count_rest_end (c := c) (a := b) (i := j + 1)
  rw [mergeFront, hx, hy]
  dsimp only
  split
  · split
    · simp only [Array.count_append, Array.push_eq_append]
      omega
    · split <;> rw [ih] <;> simp only [Array.count_append, Array.push_eq_append] <;> omega
  · split
    · simp only [Array.count_append, Array.push_eq_append]
      omega
    · split <;> rw [ih] <;> simp only [Array.count_append, Array.push_eq_append] <;> omega

theorem keepsFront_stretches {lt : α → α → Bool} {a b : Array α} {fuel : Nat}
    (ih : KeepsFront lt a b c fuel) {i j : Nat} {x y : α} (hx : a[i]? = some x)
    (hy : b[j]? = some y) (patience : Nat) (out : Array α) :
    (mergeFront lt a b (fuel + 1) .stretches patience i j out).1.count c =
      out.count c + (a.extract i a.size).count c + (b.extract j b.size).count c := by
  have hsecond := count_rest_cons (c := c) hy
  have hend (j : Nat) := count_rest_end (c := c) (a := b) (i := j)
  rw [mergeFront, hx, hy]
  dsimp only
  generalize gallop _ (a.size - i) 0 = k
  have hstretch := count_rest (c := c) a i k
  split
  · refine (count_finish _ _ _ _).trans ?_
    simp only [Array.count_append]
    omega
  · split
    · have := hend (j + 1)
      simp only [Array.count_append, Array.push_eq_append]
      omega
    · split
      · rename_i hnone
        have := count_rest_end (c := c) (Array.getElem?_eq_none_iff.mp hnone)
        simp only [Array.count_append, Array.push_eq_append]
        omega
      · rename_i z hz
        have hthird := count_rest_cons (c := c) hz
        generalize gallop _ (b.size - (j + 1)) 0 = l
        have hother := count_rest (c := c) b (j + 1) l
        split
        · have := hend (j + 1 + l)
          simp only [Array.count_append, Array.push_eq_append]
          omega
        · split
          · simp only [Array.count_append, Array.push_eq_append]
            omega
          · split <;> rw [ih] <;> simp only [Array.count_append, Array.push_eq_append] <;> omega

theorem keepsFront (lt : α → α → Bool) (a b : Array α) (fuel : Nat) : KeepsFront lt a b c fuel := by
  induction fuel with
  | zero =>
    intro pace patience i j out
    rw [mergeFront, Array.count_append, Array.count_append]
  | succ fuel ih =>
    intro pace patience i j out
    cases hx : a[i]? with
    | none => rw [mergeFront, hx, Array.count_append, Array.count_append]
    | some x =>
      cases hy : b[j]? with
      | none => rw [mergeFront, hx, hy, Array.count_append, Array.count_append]
      | some y =>
        cases pace with
        | heads left right => exact keepsFront_heads ih hx hy left right patience out
        | stretches => exact keepsFront_stretches ih hx hy patience out

/-- So does a merge from the back, as long as something is left of the first run and more than one
element of the second. -/
def KeepsBack (lt : α → α → Bool) (a b : Array α) (c : α) (fuel : Nat) : Prop :=
  ∀ pace patience i j out, 1 ≤ i → i ≤ a.size → 2 ≤ j →
    (mergeBack lt a b fuel pace patience i j out).1.count c =
      (a.extract 0 i).count c + (b.extract 0 j).count c + out.count c

theorem keepsBack_heads {lt : α → α → Bool} {a b : Array α} {fuel : Nat}
    (ih : KeepsBack lt a b c fuel) {i j : Nat} {x y : α} (hx : a[i - 1]? = some x)
    (hy : b[j - 1]? = some y) (left right patience : Nat) (out : Array α) (hi : 1 ≤ i)
    (hsize : i ≤ a.size) (hj : 2 ≤ j) :
    (mergeBack lt a b (fuel + 1) (.heads left right) patience i j out).1.count c =
      (a.extract 0 i).count c + (b.extract 0 j).count c + out.count c := by
  have hfirst := count_front_concat (c := c) hi hx
  have hsecond := count_front_concat (c := c) (by omega) hy
  have hnone := count_front_zero (c := c) a
  rw [mergeBack, hx, hy]
  dsimp only
  split
  · split
    · rename_i hlast
      rw [eq_of_beq hlast] at hfirst
      simp only [Array.count_append]
      omega
    · rename_i hmore
      have hi : 1 ≤ i - 1 := by grind
      split <;> rw [ih _ _ _ _ _ hi (by omega) hj] <;> simp only [Array.count_append] <;> omega
  · split
    · simp only [Array.count_append]
      omega
    · rename_i hmore
      have hj : 2 ≤ j - 1 := by grind
      split <;> rw [ih _ _ _ _ _ hi hsize hj] <;> simp only [Array.count_append] <;> omega

theorem keepsBack_stretches {lt : α → α → Bool} {a b : Array α} {fuel : Nat}
    (ih : KeepsBack lt a b c fuel) {i j : Nat} {x y : α} (hx : a[i - 1]? = some x)
    (hy : b[j - 1]? = some y) (patience : Nat) (out : Array α) (hi : 1 ≤ i) (hsize : i ≤ a.size)
    (hj : 2 ≤ j) :
    (mergeBack lt a b (fuel + 1) .stretches patience i j out).1.count c =
      (a.extract 0 i).count c + (b.extract 0 j).count c + out.count c := by
  have hsecond := count_front_concat (c := c) (by omega) hy
  have hnone := count_front_zero (c := c) a
  rw [mergeBack, hx, hy]
  dsimp only
  generalize i - gallop _ i (i - 1) = k
  have hstretch := count_front (c := c) a i k
  split
  · rename_i hlast
    rw [eq_of_beq hlast] at hstretch ⊢
    simp only [Array.count_append]
    omega
  · rename_i hleft
    have hleft : 1 ≤ i - k := by grind
    split
    · simp only [Array.count_append]
      omega
    · rename_i hmore
      have hmore : 2 ≤ j - 1 := by grind
      split
      · rename_i hnone
        have := Array.getElem?_eq_none_iff.mp hnone
        omega
      · rename_i z hz
        have hthird := count_front_concat (c := c) hleft hz
        generalize j - 1 - gallop _ (j - 1) (j - 1 - 1) = l
        have hother := count_front (c := c) b (j - 1) l
        split
        · refine (count_finish_back _ _ _ _).trans ?_
          simp only [Array.count_append]
          omega
        · rename_i hfew
          have hfew : 2 ≤ j - 1 - l := by grind
          split
          · rename_i hlast
            rw [eq_of_beq hlast] at hthird
            simp only [Array.count_append]
            omega
          · rename_i hrest
            have hrest : 1 ≤ i - k - 1 := by grind
            split <;> rw [ih _ _ _ _ _ hrest (by omega) hfew] <;>
              simp only [Array.count_append] <;> omega

theorem keepsBack (lt : α → α → Bool) (a b : Array α) (fuel : Nat) : KeepsBack lt a b c fuel := by
  induction fuel with
  | zero =>
    intro pace patience i j out _ _ _
    rw [mergeBack, Array.count_append, Array.count_append]
  | succ fuel ih =>
    intro pace patience i j out hi hsize hj
    cases hx : a[i - 1]? with
    | none => rw [mergeBack, hx, Array.count_append, Array.count_append]
    | some x =>
      cases hy : b[j - 1]? with
      | none => rw [mergeBack, hx, hy, Array.count_append, Array.count_append]
      | some y =>
        cases pace with
        | heads left right => exact keepsBack_heads ih hx hy left right patience out hi hsize hj
        | stretches => exact keepsBack_stretches ih hx hy patience out hi hsize hj

/-- Two runs are merged from the side of the shorter one. -/
theorem count_mergeInner (lt : α → α → Bool) (patience : Nat) {a b : Array α} (hb : b.size ≠ 0) :
    (if a.size ≤ b.size then
      if b.size == 1 then (b.extract 0 1 ++ a, patience)
      else if a.size == 1 then (b ++ a, patience)
      else mergeFront lt a b (a.size + b.size) (.heads 0 0) patience 0 1 (b.extract 0 1)
    else if b.size == 1 then (b ++ a, patience)
    else mergeBack lt a b (a.size + b.size) (.heads 0 0) patience (a.size - 1) b.size
      (a.extract (a.size - 1) a.size)).1.count c = a.count c + b.count c := by
  split
  · have hfirst := count_all (c := c) b 1
    split
    · rename_i hone
      have hnone := count_rest_end (c := c) (a := b) (i := 1) (by grind)
      rw [Array.count_append]
      omega
    · split
      · rw [Array.count_append, Nat.add_comm]
      · rw [keepsFront, Array.extract_size]
        omega
  · have hlast := count_all (c := c) a (a.size - 1)
    split
    · rw [Array.count_append, Nat.add_comm]
    · rw [keepsBack _ _ _ _ _ _ _ _ _ (by omega) (by omega) (by grind), Array.extract_size]
      omega

/-- Merging two runs loses nothing and repeats nothing. -/
theorem count_merge (lt : α → α → Bool) (patience : Nat) (a b : Array α) :
    (merge lt patience a b).1.count c = a.count c + b.count c := by
  rw [merge]
  split
  · generalize gallop _ a.size 0 = stays
    have ha := count_all (c := c) a stays
    dsimp only
    split
    · exact Array.count_append
    · generalize a.extract stays a.size = inner at *
      generalize gallop _ b.size (b.size - 1) = ends
      have hb := count_all (c := c) b ends
      split
      · exact Array.count_append
      · rename_i hinner houter
        generalize b.extract 0 ends = outer at *
        rw [Array.count_append, Array.count_append,
          count_mergeInner lt patience (by grind)]
        omega
  · exact Array.count_append

/-- How often an element occurs in runs that wait. -/
def tally (c : α) (runs : List (Waiting α)) : Nat := (runs.map fun r => r.items.count c).sum

theorem tally_cons (r : Waiting α) (runs : List (Waiting α)) :
    tally c (r :: runs) = r.items.count c + tally c runs := List.sum_cons

omit [BEq α] in
theorem settle_deep {lt : α → α → Bool} {depth : Nat} {below : Waiting α}
    (h : depth < below.depth) (fuel patience : Nat) (top : Waiting α) (rest : List (Waiting α)) :
    settle lt depth (fuel + 1) patience (top :: below :: rest) =
      settle lt depth fuel (merge lt patience below.items top.items).2
        ({ below with items := (merge lt patience below.items top.items).1 } :: rest) := by
  rw [settle.eq_2, if_pos h]

/-- Some runs that wait are merged, and none gets lost. -/
theorem settle_spec (lt : α → α → Bool) (depth fuel patience : Nat) (runs : List (Waiting α)) :
    tally c (settle lt depth fuel patience runs).1 = tally c runs ∧
      ((settle lt depth fuel patience runs).1 = [] → runs = []) := by
  induction fuel generalizing patience runs with
  | zero => exact ⟨rfl, id⟩
  | succ fuel ih =>
    match runs with
    | [] => exact ⟨rfl, id⟩
    | [run] => exact ⟨rfl, id⟩
    | top :: below :: rest =>
      by_cases h : depth < below.depth
      · rw [settle_deep h]
        refine ⟨(ih _ _).1.trans ?_, fun hnil => ?_⟩
        · rw [tally_cons, tally_cons, tally_cons, count_merge]
          omega
        · cases (ih _ _).2 hnil
      · rw [settle.eq_2, if_neg h]
        exact ⟨rfl, id⟩

theorem count_foldl_append (arrays : List (Array α)) (acc : Array α) :
    (arrays.foldl (· ++ ·) acc).count c = acc.count c + (arrays.map fun a => a.count c).sum := by
  induction arrays generalizing acc with
  | nil => rfl
  | cons a rest ih =>
    rw [List.foldl_cons, ih, Array.count_append, List.map_cons, List.sum_cons, Nat.add_assoc]

omit [BEq α] in
theorem mergeAll_outer {lt : α → α → Bool} {top third : Waiting α}
    (h : third.items.size < top.items.size) (fuel patience : Nat) (below : Waiting α)
    (rest : List (Waiting α)) :
    mergeAll lt (fuel + 1) patience (top :: below :: third :: rest) =
      mergeAll lt fuel (merge lt patience third.items below.items).2
        (top :: { third with items := (merge lt patience third.items below.items).1 } :: rest) := by
  rw [mergeAll, if_pos h]

omit [BEq α] in
theorem mergeAll_inner {lt : α → α → Bool} {top third : Waiting α}
    (h : ¬ third.items.size < top.items.size) (fuel patience : Nat) (below : Waiting α)
    (rest : List (Waiting α)) :
    mergeAll lt (fuel + 1) patience (top :: below :: third :: rest) =
      mergeAll lt fuel (merge lt patience below.items top.items).2
        ({ below with items := (merge lt patience below.items top.items).1 } :: third :: rest) := by
  rw [mergeAll, if_neg h]

/-- Merging all runs that wait keeps what is in them. -/
theorem count_mergeAll (lt : α → α → Bool) (fuel patience : Nat) (runs : List (Waiting α)) :
    (mergeAll lt fuel patience runs).count c = tally c runs := by
  induction fuel generalizing patience runs with
  | zero =>
    rw [mergeAll, count_foldl_append, List.map_map, List.map_reverse, List.sum_reverse]
    exact Nat.zero_add _
  | succ fuel ih =>
    match runs with
    | [] => rfl
    | [run] => rfl
    | [top, below] =>
      rw [mergeAll, count_merge]
      exact Nat.add_comm _ _
    | top :: below :: third :: rest =>
      by_cases h : third.items.size < top.items.size
      · rw [mergeAll_outer h, ih]
        simp only [tally_cons, count_merge]
        omega
      · rw [mergeAll_inner h, ih]
        simp only [tally_cons, count_merge]
        omega

end

/-- A run is a beginning of the list, with what follows as the rest. -/
theorem leadingRun_append (follows : α → α → Bool) (xs : List α) :
    (leadingRun follows xs).1 ++ (leadingRun follows xs).2 = xs := by
  induction xs using leadingRun.induct follows with
  | case1 => rfl
  | case2 x => rfl
  | case3 x y rest h ih =>
    rw [leadingRun, if_pos h]
    exact congrArg (x :: ·) ih
  | case4 x y rest h =>
    rw [leadingRun, if_neg h]
    rfl

theorem leadingRun_ne_nil (follows : α → α → Bool) {xs : List α} (h : xs ≠ []) :
    (leadingRun follows xs).1 ≠ [] := by
  induction xs using leadingRun.induct follows with
  | case1 => exact absurd rfl h
  | case2 x => exact List.cons_ne_nil x []
  | case3 x y rest hfollows ih =>
    rw [leadingRun, if_pos hfollows]
    exact List.cons_ne_nil _ _
  | case4 x y rest hfollows =>
    rw [leadingRun, if_neg hfollows]
    exact List.cons_ne_nil _ _

theorem firstRun_perm (lt : α → α → Bool) (xs : List α) :
    ((firstRun lt xs).1 ++ (firstRun lt xs).2).Perm xs := by
  match xs with
  | [] => exact .refl _
  | [x] => exact .refl _
  | x :: y :: rest =>
    rw [firstRun]
    split
    · refine ((List.reverse_perm _).append_right _).trans (List.Perm.of_eq ?_)
      exact leadingRun_append _ _
    · exact .of_eq (leadingRun_append _ _)

theorem firstRun_ne_nil (lt : α → α → Bool) {xs : List α} (h : xs ≠ []) :
    (firstRun lt xs).1 ≠ [] := by
  match xs with
  | [] => exact h
  | [x] => exact h
  | x :: y :: rest =>
    rw [firstRun]
    split
    · exact List.reverse_ne_nil_iff.mpr (leadingRun_ne_nil _ (List.cons_ne_nil _ _))
    · exact leadingRun_ne_nil _ (List.cons_ne_nil _ _)

theorem insertByHalving_perm (lt : α → α → Bool) (run : Array α) (x : α) :
    (insertByHalving lt run x).toList.Perm (x :: run.toList) := by
  rw [insertByHalving]
  generalize halve _ _ _ _ = n
  have hback : (run.extract n run.size).toList = run.toList.drop n := by
    rw [Array.toList_extract, List.extract_eq_take_drop, List.take_of_length_le (by simp)]
  have hfront : (run.extract 0 n).toList = run.toList.take n := by simp
  rw [Array.toList_append, Array.toList_append, hfront, hback, List.append_assoc]
  refine List.perm_middle.trans (.of_eq ?_)
  exact congrArg (x :: ·) (List.take_append_drop n run.toList)

/-- The elements that make a run longer are put into it. -/
theorem foldl_insertByHalving_perm (lt : α → α → Bool) (more : List α) (run : Array α) :
    (more.foldl (insertByHalving lt) run).toList.Perm (more ++ run.toList) := by
  induction more generalizing run with
  | nil => exact .refl _
  | cons x more ih =>
    refine (ih _).trans (((insertByHalving_perm lt run x).append_left more).trans ?_)
    exact List.perm_middle

/-- A run that is found, with what makes it longer, and the rest are the whole list. -/
theorem count_run [BEq α] {c : α} (lt : α → α → Bool) {found rest xs : List α}
    (h : (found ++ rest).Perm xs) (k : Nat) :
    ((rest.take k).foldl (insertByHalving lt) found.toArray).count c + (rest.drop k).count c =
      xs.count c := by
  have hrest := congrArg (List.count c) (List.take_append_drop k rest)
  have hrun := (foldl_insertByHalving_perm lt (rest.take k) found.toArray).count_eq c
  have hall := h.count_eq c
  rw [List.count_append] at hrest hrun hall
  rw [← Array.count_toList, hrun, ← hall, ← hrest, List.toList_toArray]
  omega

/-- Run after run is taken from the front, made longer from behind it, and waits for the others. -/
theorem count_sortRest [BEq α] {c : α} (lt : α → α → Bool) (n least fuel patience start : Nat)
    (runs : List (Waiting α)) (xs : List α) (hfuel : xs.length ≤ fuel) :
    (sortRest lt n least fuel patience start runs xs).count c = tally c runs + xs.count c := by
  induction fuel generalizing patience start runs xs with
  | zero =>
    obtain rfl := List.eq_nil_of_length_eq_zero (Nat.le_zero.mp hfuel)
    exact count_mergeAll _ _ _ _
  | succ fuel ih =>
    by_cases hxs : xs = []
    · rw [hxs]
      exact count_mergeAll _ _ _ _
    · obtain ⟨found, rest, hfirst⟩ : ∃ found rest, firstRun lt xs = (found, rest) := ⟨_, _, rfl⟩
      have hperm : (found ++ rest).Perm xs := by simpa [hfirst] using firstRun_perm lt xs
      have hfound : found ≠ [] := by simpa [hfirst] using firstRun_ne_nil lt hxs
      have hlength : (rest.drop (least - found.length)).length ≤ fuel := by
        have hall := hperm.length_eq
        have hsome := List.length_pos_of_ne_nil hfound
        rw [List.length_append] at hall
        rw [List.length_drop]
        omega
      rw [sortRest, if_neg (by simpa using hxs), hfirst]
      dsimp only
      rw [ih _ _ _ _ hlength, tally_cons]
      generalize least - found.length = k
      have hcount := count_run (c := c) lt hperm k
      generalize (rest.take k).foldl (insertByHalving lt) found.toArray = run at *
      split
      · dsimp only
        omega
      · split
        · rename_i hsettled
          have htally := (congrArg (fun s => tally c s.1) hsettled).symm.trans
            (settle_spec lt _ _ _ _).1
          simp only [tally_cons] at *
          omega
        · rename_i hsettled
          cases (settle_spec (c := c) lt _ _ _ _).2 (congrArg Prod.fst hsettled)

/-- Sorting by runs loses nothing and repeats nothing, consistent or not as the comparison may be. -/
theorem byRuns_perm (lt : α → α → Bool) (xs : List α) : (byRuns lt xs).Perm xs := by
  classical
  refine List.perm_iff_count.mpr fun c => ?_
  rw [byRuns, Array.count_toList]
  exact (count_sortRest lt _ _ _ _ _ _ xs (Nat.le_succ _)).trans (Nat.zero_add _)

theorem arrange_perm (isComparable : α → Bool) (lt : α → α → Bool) (xs : List α) :
    (arrange isComparable lt xs).Perm xs := by
  rw [arrange]
  split
  · exact sort_perm lt xs
  · exact byRuns_perm lt xs

end Storyboard.Order
