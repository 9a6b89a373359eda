/-!
# Stable sorting by halves

Merge sort with explicit bounds on its recursion, so that a closed instance evaluates. With enough
bound it is the sort of the core library (`sort_eq_mergeSort`), from which order, stability and the
kept elements follow.
-/

set_option autoImplicit false

namespace TextIndex

variable {α : Type}

/-- Merges two lists in at most `bound` comparisons; on a tie the left list goes first. -/
def mergeWithin (le : α → α → Bool) : Nat → List α → List α → List α
  | _, [], ys => ys
  | _, xs, [] => xs
  | 0, xs, ys => xs ++ ys
  | bound + 1, x :: xs, y :: ys =>
    if le x y then x :: mergeWithin le bound xs (y :: ys)
    else y :: mergeWithin le bound (x :: xs) ys

/-- Sorts by halves to a depth of `bound`. -/
def sortWithin (le : α → α → Bool) : Nat → List α → List α
  | 0, xs => xs
  | _, [] => []
  | _, [x] => [x]
  | bound + 1, xs =>
    let half := (xs.length + 1) / 2
    mergeWithin le xs.length (sortWithin le bound (xs.take half)) (sortWithin le bound (xs.drop half))

/-- The elements in an order given by `le`; elements that `le` does not tell apart keep their
places. -/
def sort (le : α → α → Bool) (xs : List α) : List α := sortWithin le xs.length xs

/-- Enough comparisons make it the merge of the core library. -/
theorem mergeWithin_eq_merge (le : α → α → Bool) (bound : Nat) (xs ys : List α)
    (h : xs.length + ys.length ≤ bound) : mergeWithin le bound xs ys = List.merge xs ys le := by
  induction bound generalizing xs ys with
  | zero =>
    obtain ⟨rfl, rfl⟩ : xs = [] ∧ ys = [] := by
      constructor <;> exact List.eq_nil_of_length_eq_zero (by omega)
    simp [mergeWithin]
  | succ bound ih =>
    cases xs with
    | nil => cases ys <;> simp [mergeWithin]
    | cons x xs =>
      cases ys with
      | nil => simp [mergeWithin]
      | cons y ys =>
        simp only [List.length_cons] at h
        rw [List.cons_merge_cons]
        simp only [mergeWithin]
        rw [ih xs (y :: ys) (by simp only [List.length_cons]; omega),
          ih (x :: xs) ys (by simp only [List.length_cons]; omega)]

/-- Enough depth makes it the sort of the core library. -/
theorem sortWithin_eq_mergeSort (le : α → α → Bool) (bound : Nat) (xs : List α)
    (h : xs.length ≤ bound) : sortWithin le bound xs = xs.mergeSort le := by
  induction bound generalizing xs with
  | zero =>
    obtain rfl : xs = [] := List.eq_nil_of_length_eq_zero (by omega)
    simp [sortWithin]
  | succ bound ih =>
    match xs with
    | [] => simp [sortWithin]
    | [x] => simp [sortWithin]
    | a :: b :: rest =>
      simp only [List.length_cons] at h
      rw [List.mergeSort]
      simp only [sortWithin, List.MergeSort.Internal.splitInTwo_fst,
        List.MergeSort.Internal.splitInTwo_snd]
      rw [ih _ (by simp only [List.length_take, List.length_cons]; omega),
        ih _ (by simp only [List.length_drop, List.length_cons]; omega),
        mergeWithin_eq_merge]
      simp only [List.length_mergeSort, List.length_take, List.length_drop]
      omega

/-- The sort is the merge sort of the core library, so it is stable. -/
theorem sort_eq_mergeSort (le : α → α → Bool) (xs : List α) : sort le xs = xs.mergeSort le :=
  sortWithin_eq_mergeSort le xs.length xs (Nat.le_refl _)

end TextIndex
