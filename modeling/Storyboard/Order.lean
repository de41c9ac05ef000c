import Storyboard.Order.Runs

namespace Storyboard.Order

variable {α : Type}

/-- Puts an element into a descending list, in front of all that it is not below. -/
def insert (lt : α → α → Bool) (x : α) : List α → List α
  | [] => [x]
  | y :: ys => if lt x y then y :: insert lt x ys else x :: y :: ys

/-- The elements in ascending order; elements neither of which is below the other keep theirs. -/
def sort (lt : α → α → Bool) (xs : List α) : List α :=
  (xs.foldl (fun sorted x => insert lt x sorted) []).reverse

/-- The elements in ascending order if all can be compared, or else as sorting by runs leaves
them. -/
def arrange (isComparable : α → Bool) (lt : α → α → Bool) (xs : List α) : List α :=
  if xs.all isComparable then sort lt xs else byRuns lt xs

theorem insert_perm (lt : α → α → Bool) (x : α) (ys : List α) :
    (insert lt x ys).Perm (x :: ys) := by
  induction ys with
  | nil => exact .refl _
  | cons y ys ih =>
    simp only [insert]
    split
    · exact (ih.cons y).trans (.swap x y ys)
    · exact .refl _

theorem foldl_insert_perm (lt : α → α → Bool) (xs sorted : List α) :
    (xs.foldl (fun s x => insert lt x s) sorted).Perm (xs ++ sorted) := by
  induction xs generalizing sorted with
  | nil => exact .refl _
  | cons x xs ih =>
    refine (ih (insert lt x sorted)).trans ?_
    refine ((insert_perm lt x sorted).append_left xs).trans ?_
    exact List.perm_middle

/-- Sorting loses nothing and adds nothing. -/
theorem sort_perm (lt : α → α → Bool) (xs : List α) : (sort lt xs).Perm xs := by
  simpa [sort] using (List.reverse_perm _).trans (foldl_insert_perm lt xs [])

/-- The elements that can all be compared are sorted. -/
theorem arrange_of_all {isComparable : α → Bool} {lt : α → α → Bool} {xs : List α}
    (h : xs.all isComparable = true) : arrange isComparable lt xs = sort lt xs := by
  simp [arrange, h]

end Storyboard.Order
