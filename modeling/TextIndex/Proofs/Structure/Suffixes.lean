import Mathlib.Data.List.GetD
import Mathlib.Data.List.Lex
import Mathlib.Data.List.Sort

/-!
# Suffixes in lexicographic order

A text is a list of numbers, and its suffixes are compared as lists: at the first place where they
differ, and a suffix that ends there comes first. `Sorts` says that a list of positions is the suffix
array of a text; there is only one (`Sorts.unique`).

The comparison can be made in pieces: suffixes are compared by their first `2 * k` members as by their
first `k` members, and if these agree by the `k` members after them (`take_double_lt_iff`).
-/

set_option autoImplicit false

namespace TextIndex

/-- The last member of the text is less than all others. -/
def EndsWithLeast (text : List Nat) : Prop :=
  ∃ front last, text = front ++ [last] ∧ ∀ x ∈ front, last < x

/-- A text that ends with its least member is not empty. -/
theorem EndsWithLeast.length_pos {text : List Nat} (h : EndsWithLeast text) : 0 < text.length := by
  obtain ⟨front, last, rfl, -⟩ := h
  simp

/-- The positions of the text in the lexicographic order of the suffixes that start there. -/
structure Sorts (text positions : List Nat) : Prop where
  perm : positions.Perm (List.range text.length)
  sorted : positions.Pairwise fun i j => text.drop i < text.drop j

namespace Sorts

variable {text positions : List Nat}

/-- There is a suffix for every position. -/
theorem length_eq (h : Sorts text positions) : positions.length = text.length := by
  rw [h.perm.length_eq, List.length_range]

/-- No position is listed twice. -/
theorem nodup (h : Sorts text positions) : positions.Nodup :=
  h.perm.nodup_iff.2 List.nodup_range

/-- The positions of the text are listed, and no others. -/
theorem mem_iff (h : Sorts text positions) {i : Nat} : i ∈ positions ↔ i < text.length := by
  rw [h.perm.mem_iff, List.mem_range]

/-- What is listed are positions of the text. -/
theorem getElem_lt (h : Sorts text positions) {r : Nat} (hr : r < positions.length) :
    positions[r] < text.length := h.mem_iff.1 (List.getElem_mem hr)

/-- Every position of the text is listed at some rank. -/
theorem exists_rank (h : Sorts text positions) {i : Nat} (hi : i < text.length) :
    ∃ (r : Nat) (hr : r < positions.length), positions[r] = i :=
  List.mem_iff_getElem.1 (h.mem_iff.2 hi)

/-- A lesser rank has the lesser suffix. -/
theorem drop_lt (h : Sorts text positions) {r s : Nat} (hr : r < positions.length)
    (hs : s < positions.length) (hrs : r < s) : text.drop positions[r] < text.drop positions[s] :=
  List.pairwise_iff_getElem.1 h.sorted r s hr hs hrs

/-- A lesser suffix has the lesser rank. -/
theorem rank_lt (h : Sorts text positions) {r s : Nat} (hr : r < positions.length)
    (hs : s < positions.length) (hlt : text.drop positions[r] < text.drop positions[s]) : r < s := by
  rcases Nat.lt_trichotomy r s with hrs | rfl | hrs
  · exact hrs
  · exact absurd hlt (lt_irrefl _)
  · exact absurd hlt (not_lt_of_gt (h.drop_lt hs hr hrs))

/-- A text has one suffix array. -/
theorem unique {positions' : List Nat} (h : Sorts text positions) (h' : Sorts text positions') :
    positions = positions' := by
  refine (h.perm.trans h'.perm.symm).eq_of_pairwise ?_ h.sorted h'.sorted
  intro i j _ _ hij hji
  exact absurd hij (not_lt_of_gt hji)

end Sorts

/-! ## Comparing in pieces -/

/-- Lists that are cut at the same place are compared by what stands before the cut, and if that is
the same by what stands behind it. -/
theorem append_lt_iff {k : Nat} {a c b d : List Nat} (ha : a.length ≤ k) (hc : c.length ≤ k)
    (hb : a.length < k → b = []) (hd : c.length < k → d = []) :
    a ++ b < c ++ d ↔ a < c ∨ a = c ∧ b < d := by
  induction k generalizing a c with
  | zero =>
    obtain rfl : a = [] := List.eq_nil_of_length_eq_zero (by omega)
    obtain rfl : c = [] := List.eq_nil_of_length_eq_zero (by omega)
    simp
  | succ k ih =>
    cases a with
    | nil =>
      obtain rfl : b = [] := hb (by simp)
      cases c with
      | nil =>
        obtain rfl : d = [] := hd (by simp)
        simp
      | cons y c => simp
    | cons x a =>
      cases c with
      | nil =>
        obtain rfl : d = [] := hd (by simp)
        simp
      | cons y c =>
        simp only [List.length_cons] at ha hc hb hd
        have hrest := ih (a := a) (c := c) (by omega) (by omega)
          (fun h => hb (by omega)) (fun h => hd (by omega))
        simp only [List.cons_append, List.cons_lt_cons_iff, List.cons.injEq, hrest]
        rw [and_or_left, or_assoc, and_assoc]

/-- The first `2 * k` members are compared as the first `k` and then the next `k`. -/
theorem take_double_lt_iff (text : List Nat) (k i j : Nat) :
    (text.drop i).take (2 * k) < (text.drop j).take (2 * k) ↔
      (text.drop i).take k < (text.drop j).take k ∨
        (text.drop i).take k = (text.drop j).take k ∧
          (text.drop (i + k)).take k < (text.drop (j + k)).take k := by
  have hsplit : ∀ i, (text.drop i).take (2 * k) =
      (text.drop i).take k ++ (text.drop (i + k)).take k := by
    intro i
    rw [Nat.two_mul, List.take_add, List.drop_drop]
  have hshort : ∀ i, ((text.drop i).take k).length < k → (text.drop (i + k)).take k = [] := by
    intro i hi
    rw [List.length_take, List.length_drop] at hi
    rw [List.drop_eq_nil_of_le (by omega), List.take_nil]
  rw [hsplit, hsplit]
  exact append_lt_iff (List.length_take_le ..) (List.length_take_le ..) (hshort i) (hshort j)

/-- Lists that differ in their first members are ordered by these. -/
theorem lt_of_take_lt {a b : List Nat} {k : Nat} (h : a.take k < b.take k) : a < b := by
  have hlt := (append_lt_iff (k := k) (a := a.take k) (c := b.take k) (b := a.drop k)
    (d := b.drop k) (List.length_take_le ..) (List.length_take_le ..)
    (fun hk => List.drop_eq_nil_of_le (by rw [List.length_take] at hk; omega))
    (fun hk => List.drop_eq_nil_of_le (by rw [List.length_take] at hk; omega))).2 (Or.inl h)
  rwa [List.take_append_drop, List.take_append_drop] at hlt

/-- Suffixes from different positions are different, for their lengths are. -/
theorem drop_ne {text : List Nat} {i j : Nat} (hi : i < text.length) (hj : j < text.length)
    (hij : i ≠ j) : text.drop i ≠ text.drop j := by
  intro heq
  have hlength := congrArg List.length heq
  rw [List.length_drop, List.length_drop] at hlength
  omega

end TextIndex
