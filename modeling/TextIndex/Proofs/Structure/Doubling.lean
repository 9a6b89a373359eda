import Mathlib.Algebra.Group.Nat.Defs
import TextIndex.Proofs.Loops
import TextIndex.Proofs.Structure.Suffixes
import TextIndex.Structure.SuffixArray

/-!
# Prefix doubling sorts the suffixes

A round of prefix doubling turns ranks by `k` members (`RanksBy k`) into ranks by `2 * k`: the keys
compare suffixes by `2 * k` members (`keyLt_key_iff`), and the class numbers along the sorted
positions compare as the keys do (`pairwise_classes`). The rounds end when all classes differ. That
is so at the latest when `2 * k` members are whole suffixes, because no two suffixes are equal; and
whenever it is so, the positions are the suffix array and the ranks are its inverse.
-/

set_option autoImplicit false

namespace TextIndex.SuffixArray

/-- The members of a text as numbers. -/
def codes (text : Array UInt8) : List Nat := text.toList.map UInt8.toNat

/-- Every byte has a code. -/
@[simp] theorem length_codes (text : Array UInt8) : (codes text).length = text.size := by
  simp [codes]

/-- The ranks of the positions compare as the first `k` members from there. -/
structure RanksBy (text : List Nat) (k : Nat) (rank : Array Nat) : Prop where
  size_eq : rank.size = text.length
  lt_iff : ∀ i j, i < text.length → j < text.length →
    (rank.getD i 0 < rank.getD j 0 ↔ (text.drop i).take k < (text.drop j).take k)

/-- Ranks are equal where the members are. -/
theorem RanksBy.eq_iff {text : List Nat} {k : Nat} {rank : Array Nat} (h : RanksBy text k rank)
    {i j : Nat} (hi : i < text.length) (hj : j < text.length) :
    rank.getD i 0 = rank.getD j 0 ↔ (text.drop i).take k = (text.drop j).take k := by
  have hij := h.lt_iff i j hi hj
  have hji := h.lt_iff j i hj hi
  constructor
  · intro heq
    rw [heq] at hij hji
    exact le_antisymm (not_lt.1 fun hlt => lt_irrefl _ (hji.2 hlt))
      (not_lt.1 fun hlt => lt_irrefl _ (hij.2 hlt))
  · intro heq
    rw [heq] at hij hji
    have hij' : ¬ rank.getD i 0 < rank.getD j 0 := fun hlt => lt_irrefl _ (hij.1 hlt)
    have hji' : ¬ rank.getD j 0 < rank.getD i 0 := fun hlt => lt_irrefl _ (hji.1 hlt)
    omega

/-- The members themselves are ranks by one member. -/
theorem ranksBy_one (text : Array UInt8) :
    RanksBy (codes text) 1 (text.map UInt8.toNat) where
  size_eq := by simp
  lt_iff i j hi hj := by
    have hone : ∀ i, i < (codes text).length →
        ((codes text).drop i).take 1 = [(text.map UInt8.toNat).getD i 0] := by
      intro i hi
      have hi' : i < text.size := by simpa using hi
      rw [List.drop_eq_getElem_cons hi]
      simp [codes, Array.getD_eq_getD_getElem?, hi']
    rw [hone i hi, hone j hj, List.cons_lt_cons_iff]
    simp

/-! ## Keys -/

/-- A key is before another one when it is in the lexicographic order of pairs. -/
theorem keyLt_iff (a b : Nat × Nat) : keyLt a b = true ↔ a.1 < b.1 ∨ a.1 = b.1 ∧ a.2 < b.2 := by
  simp [keyLt]

/-- The keys compare the suffixes by twice as many members. -/
theorem keyLt_key_iff {text : List Nat} {k : Nat} (hk : 0 < k) {rank : Array Nat}
    (h : RanksBy text k rank) {i j : Nat} (hi : i < text.length) (hj : j < text.length) :
    keyLt (key rank k i) (key rank k j) = true ↔
      (text.drop i).take (2 * k) < (text.drop j).take (2 * k) := by
  rw [keyLt_iff, take_double_lt_iff, ← h.lt_iff i j hi hj, ← h.eq_iff hi hj]
  -- the second half of a key is zero exactly where nothing is left to compare
  have hsecond : ∀ i, (key rank k i).2 =
      if i + k < text.length then rank.getD (i + k) 0 + 1 else 0 := by
    intro i
    unfold key
    by_cases hik : i + k < text.length
    · have hsize : i + k < rank.size := by rw [h.size_eq]; exact hik
      simp [hik, hsize, Array.getD_eq_getD_getElem?]
    · have hsize : ¬ i + k < rank.size := by rw [h.size_eq]; exact hik
      simp [hik, hsize]
  have hempty : ∀ i, ¬ i + k < text.length → (text.drop (i + k)).take k = [] := fun i hik => by
    rw [List.drop_eq_nil_of_le (Nat.not_lt.1 hik), List.take_nil]
  have hcons : ∀ i, i + k < text.length → [] < (text.drop (i + k)).take k := by
    intro i hik
    obtain ⟨k, rfl⟩ := Nat.exists_eq_succ_of_ne_zero (Nat.ne_of_gt hk)
    rw [List.drop_eq_getElem_cons hik, List.take_succ_cons]
    exact List.nil_lt_cons _ _
  refine or_congr Iff.rfl (and_congr Iff.rfl ?_)
  rw [hsecond, hsecond]
  by_cases hik : i + k < text.length <;> by_cases hjk : j + k < text.length
  · simpa [hik, hjk] using h.lt_iff (i + k) (j + k) hik hjk
  · simp [hik, hjk, hempty j hjk]
  · simpa [hik, hjk, hempty i hik] using hcons j hjk
  · simp [hik, hjk, hempty i hik, hempty j hjk]

/-- The positions are sorted by their keys. -/
theorem sortedPositions_spec (rank : Array Nat) (k : Nat) :
    (sortedPositions rank k).Perm (List.range rank.size) ∧
      (sortedPositions rank k).Pairwise fun i j =>
        ¬ keyLt (key rank k j) (key rank k i) = true := by
  unfold sortedPositions
  rw [sort_eq_mergeSort]
  refine ⟨List.mergeSort_perm .., ?_⟩
  refine (List.pairwise_mergeSort ?_ ?_ (List.range rank.size)).imp
    fun h => by simpa using h
  · intro a b c
    simp only [Bool.not_eq_true', ← Bool.not_eq_true, keyLt_iff]
    omega
  · intro a b
    simp only [Bool.or_eq_true, Bool.not_eq_true', ← Bool.not_eq_true, keyLt_iff]
    omega

/-! ## Classes -/

/-- Every position is in a class. -/
@[simp] theorem length_classes (keyOf : Nat → Nat × Nat) (c : Nat) (positions : List Nat) :
    (classes keyOf c positions).length = positions.length := by
  induction c, positions using classes.induct keyOf with
  | case1 c => rfl
  | case2 c i => rfl
  | case3 c i j rest ih => simp only [classes, List.length_cons, ih]

/-- The first class is the given number. -/
theorem exists_classes_cons (keyOf : Nat → Nat × Nat) (c i : Nat) (rest : List Nat) :
    ∃ more, classes keyOf c (i :: rest) = c :: more := by
  cases rest with
  | nil => exact ⟨[], rfl⟩
  | cons j rest => exact ⟨_, rfl⟩

/-- Along sorted positions the classes rise, and they rise exactly where the keys do. -/
theorem pairwise_classes (keyOf : Nat → Nat × Nat) (c : Nat) (positions : List Nat)
    (hsorted : positions.Pairwise fun i j => ¬ keyLt (keyOf j) (keyOf i) = true) :
    (positions.zip (classes keyOf c positions)).Pairwise fun p q =>
      p.2 ≤ q.2 ∧ (p.2 < q.2 ↔ keyLt (keyOf p.1) (keyOf q.1) = true) ∧
        ¬ keyLt (keyOf q.1) (keyOf p.1) = true := by
  induction c, positions using classes.induct keyOf with
  | case1 c => exact List.Pairwise.nil
  | case2 c i => exact List.pairwise_singleton _ _
  | case3 c i j rest ih =>
    rw [List.pairwise_cons] at hsorted
    have hrest := ih hsorted.2
    have hij := hsorted.1 j (List.mem_cons_self ..)
    obtain ⟨more, hmore⟩ := exists_classes_cons keyOf
      (if keyLt (keyOf i) (keyOf j) = true then c + 1 else c) j rest
    simp only [classes]
    rw [hmore, List.zip_cons_cons, List.pairwise_cons] at hrest
    rw [hmore, List.zip_cons_cons, List.zip_cons_cons, List.pairwise_cons]
    refine ⟨?_, List.pairwise_cons.2 hrest⟩
    intro q hq
    have hnext : c ≤ (if keyLt (keyOf i) (keyOf j) = true then c + 1 else c) ∧
        (c < (if keyLt (keyOf i) (keyOf j) = true then c + 1 else c) ↔
          keyLt (keyOf i) (keyOf j) = true) := by
      split <;> simp_all
    generalize (if keyLt (keyOf i) (keyOf j) = true then c + 1 else c) = next at hnext hrest hq
    rcases List.mem_cons.1 hq with rfl | hq
    · exact ⟨hnext.1, hnext.2, hij⟩
    · -- what follows `j` compares with `i` as it does with `j`, unless `i` is before `j` already
      have hmem : q.1 ∈ rest := (List.of_mem_zip hq).1
      have hiq := hsorted.1 q.1 (List.mem_cons_of_mem _ hmem)
      obtain ⟨hle, hlt, hqj⟩ := hrest.1 q hq
      simp only [keyLt_iff] at hij hiq hlt hqj hnext ⊢
      omega

/-- Every class is less than the number that the given one would reach in steps of one. -/
theorem lt_of_mem_classes {keyOf : Nat → Nat × Nat} {c : Nat} {positions : List Nat} {x : Nat}
    (hx : x ∈ classes keyOf c positions) : x < c + positions.length := by
  induction c, positions using classes.induct keyOf with
  | case1 c => cases hx
  | case2 c i =>
    rw [List.mem_singleton.1 hx]
    exact Nat.lt_succ_self c
  | case3 c i j rest ih =>
    simp only [classes, List.mem_cons] at hx
    simp only [List.length_cons] at ih ⊢
    rcases hx with rfl | hx
    · omega
    · have hlt := ih hx
      split at hlt <;> omega

/-- If the last class is as great as can be, the classes are consecutive. -/
theorem classes_eq_range' {keyOf : Nat → Nat × Nat} {c : Nat} {positions : List Nat} {x : Nat}
    (hlast : (classes keyOf c positions).getLast? = some x) (hx : x + 1 = c + positions.length) :
    classes keyOf c positions = List.range' c positions.length := by
  induction c, positions using classes.induct keyOf with
  | case1 c => rfl
  | case2 c i => rfl
  | case3 c i j rest ih =>
    obtain ⟨more, hmore⟩ := exists_classes_cons keyOf
      (if keyLt (keyOf i) (keyOf j) = true then c + 1 else c) j rest
    simp only [classes] at hlast ⊢
    rw [hmore, List.getLast?_cons_cons, ← hmore] at hlast
    have hlt := lt_of_mem_classes (List.mem_of_getLast? hlast)
    simp only [List.length_cons] at hlt hx ih ⊢
    have hstep : (if keyLt (keyOf i) (keyOf j) = true then c + 1 else c) = c + 1 := by
      split
      · rfl
      · next hno =>
        rw [if_neg hno] at hlt
        omega
    rw [hstep] at ih hlast ⊢
    rw [ih hlast (by omega), ← List.range'_succ]

/-- If every key is before the next one, the classes are consecutive. -/
theorem classes_of_pairwise {keyOf : Nat → Nat × Nat} {c : Nat} {positions : List Nat}
    (h : positions.Pairwise fun i j => keyLt (keyOf i) (keyOf j) = true) :
    classes keyOf c positions = List.range' c positions.length := by
  induction c, positions using classes.induct keyOf with
  | case1 c => rfl
  | case2 c i => rfl
  | case3 c i j rest ih =>
    rw [List.pairwise_cons] at h
    simp only [classes, h.1 j (List.mem_cons_self ..), if_true] at ih ⊢
    rw [ih h.2]
    rfl

/-! ## A round -/

/-- Scattering puts every value at its position. -/
theorem toList_scatter (positions values : List Nat) (into : Array Nat) :
    (scatter positions values into).toList = putAll into.toList (positions.zip values) := by
  unfold scatter putAll
  generalize positions.zip values = pairs
  induction pairs generalizing into with
  | nil => rfl
  | cons p pairs ih => rw [List.foldl_cons, List.foldl_cons, ih, Array.toList_setIfInBounds]

/-- What a round may lead to: positions with equal keys stand in any order, and the ranks are the
classes. -/
structure IsRound (rank : Array Nat) (k : Nat) (next : Ranking) : Prop where
  perm : next.positions.Perm (List.range rank.size)
  sorted : next.positions.Pairwise fun i j => ¬ keyLt (key rank k j) (key rank k i) = true
  ranks_eq : next.ranks = scatter next.positions (classes (key rank k) 0 next.positions) rank

/-- Refining ranks is a round of doubling. -/
theorem isRound_refine (rank : Array Nat) (k : Nat) : IsRound rank k (refine rank k) where
  perm := (sortedPositions_spec rank k).1
  sorted := (sortedPositions_spec rank k).2
  ranks_eq := rfl

/-- Positions, each beside its class. -/
def classPairs (rank : Array Nat) (k : Nat) (positions : List Nat) : List (Nat × Nat) :=
  positions.zip (classes (key rank k) 0 positions)

/-- Pairing positions with their classes keeps the positions. -/
theorem map_fst_classPairs (rank : Array Nat) (k : Nat) (positions : List Nat) :
    (classPairs rank k positions).map Prod.fst = positions :=
  List.map_fst_zip (by simp)

/-- The last position has the last class. -/
theorem exists_last_class (rank : Array Nat) (k : Nat) {i : Nat} {positions : List Nat}
    (hi : positions.getLast? = some i) :
    ∃ c, (classes (key rank k) 0 positions).getLast? = some c ∧ (i, c) ∈ classPairs rank k positions := by
  unfold classPairs
  have hlength := length_classes (key rank k) 0 positions
  generalize classes (key rank k) 0 positions = cs at hlength
  obtain ⟨front, hfront⟩ := List.getLast?_eq_some_iff.1 hi
  rw [hfront] at hlength ⊢
  rcases List.eq_nil_or_concat cs with rfl | ⟨cs, c, rfl⟩
  · simp at hlength
  · refine ⟨c, by simp, ?_⟩
    rw [List.concat_eq_append, List.zip_append (by simpa using hlength.symm)]
    simp

/-- What the last round leaves: the suffix array and its inverse. -/
structure Ranking.Correct (text : List Nat) (r : Ranking) : Prop where
  sorts : Sorts text r.positions
  size_eq : r.ranks.size = text.length
  rank_eq : ∀ m (hm : m < r.positions.length), r.ranks.getD r.positions[m] 0 = m

/-- A text has one suffix array, and this has one inverse. -/
theorem Ranking.Correct.unique {text : List Nat} {r r' : Ranking} (h : r.Correct text)
    (h' : r'.Correct text) : r = r' := by
  obtain ⟨positions, ranks⟩ := r
  obtain ⟨positions', ranks'⟩ := r'
  obtain rfl : positions = positions' := h.sorts.unique h'.sorts
  have hsize := h.size_eq
  have hsize' := h'.size_eq
  have hranks : ranks = ranks' := by
    refine Array.ext (hsize.trans hsize'.symm) fun i hi hi' => ?_
    obtain ⟨m, hm, rfl⟩ := h.sorts.exists_rank (hsize ▸ hi)
    have heq := (h.rank_eq m hm).trans (h'.rank_eq m hm).symm
    simpa [Array.getD_eq_getD_getElem?, hi, hi'] using heq
  rw [hranks]

namespace IsRound

variable {text : List Nat} {k : Nat} {rank : Array Nat} {next : Ranking}

/-- A round orders all positions. -/
theorem length_positions (h : IsRound rank k next) : next.positions.length = rank.size := by
  rw [h.perm.length_eq, List.length_range]

/-- A round ranks all positions. -/
theorem size_ranks (h : IsRound rank k next) : next.ranks.size = rank.size := by
  have hlist := congrArg List.length
    (toList_scatter next.positions (classes (key rank k) 0 next.positions) rank)
  rw [h.ranks_eq]
  simpa using hlist

/-- A round orders positions of the text only. -/
theorem lt_of_mem (h : IsRound rank k next) {i : Nat} (hi : i ∈ next.positions) : i < rank.size :=
  List.mem_range.1 (h.perm.mem_iff.1 hi)

/-- After a round the rank of a position is its class. -/
theorem getD_ranks (h : IsRound rank k next) {i c : Nat}
    (hc : (i, c) ∈ classPairs rank k next.positions) : next.ranks.getD i 0 = c := by
  have hi : i < rank.size := h.lt_of_mem (List.of_mem_zip hc).1
  have hnodup : ((classPairs rank k next.positions).map Prod.fst).Nodup := by
    rw [map_fst_classPairs]
    exact h.perm.nodup_iff.2 List.nodup_range
  have hget := getElem?_putAll hnodup hc (l := rank.toList) (by simpa using hi)
  unfold classPairs at hget
  rw [← toList_scatter, Array.getElem?_toList, ← h.ranks_eq] at hget
  simp only [Array.getD_eq_getD_getElem?, hget, Option.getD_some]

/-- Every position has a class. -/
theorem exists_class (h : IsRound rank k next) {i : Nat} (hi : i < rank.size) :
    ∃ c, (i, c) ∈ classPairs rank k next.positions := by
  have hmem : i ∈ (classPairs rank k next.positions).map Prod.fst := by
    rw [map_fst_classPairs]
    exact h.perm.mem_iff.2 (List.mem_range.2 hi)
  obtain ⟨⟨j, c⟩, hp, rfl⟩ := List.mem_map.1 hmem
  exact ⟨c, hp⟩

/-- A round doubles the number of members that are compared. -/
theorem ranksBy (hround : IsRound rank k next) (hk : 0 < k) (h : RanksBy text k rank) :
    RanksBy text (2 * k) next.ranks where
  size_eq := by rw [hround.size_ranks, h.size_eq]
  lt_iff i j hi hj := by
    obtain ⟨c, hc⟩ := hround.exists_class (by rwa [h.size_eq] : i < rank.size)
    obtain ⟨d, hd⟩ := hround.exists_class (by rwa [h.size_eq] : j < rank.size)
    rw [hround.getD_ranks hc, hround.getD_ranks hd, ← keyLt_key_iff hk h hi hj]
    have hpairs := pairwise_classes (key rank k) 0 next.positions hround.sorted
    have hall : ∀ p ∈ classPairs rank k next.positions, ∀ q ∈ classPairs rank k next.positions,
        (p.2 < q.2 ↔ keyLt (key rank k p.1) (key rank k q.1) = true) :=
      fun p hp q hq => List.Pairwise.forall_of_forall_of_flip (fun p _ => by simp [keyLt_iff])
        (hpairs.imp fun hpq => hpq.2.1)
        (hpairs.imp fun hpq => ⟨fun hlt => absurd hpq.1 (Nat.not_le.2 hlt),
          fun hlt => absurd hlt hpq.2.2⟩) hp hq
    exact hall _ hc _ hd

/-- With consecutive classes a round is the last one. -/
theorem correct_of_classes (hround : IsRound rank k next) (hk : 0 < k) (h : RanksBy text k rank)
    (hclasses : classes (key rank k) 0 next.positions = List.range rank.size) :
    next.Correct text where
  sorts := by
    refine ⟨h.size_eq ▸ hround.perm, List.pairwise_iff_getElem.2 ?_⟩
    intro r s hr hs hrs
    have hpairs := pairwise_classes (key rank k) 0 next.positions hround.sorted
    have hlength := hround.length_positions
    rw [hclasses] at hpairs
    have hrs' := List.pairwise_iff_getElem.1 hpairs r s (by simpa [hlength] using hr)
      (by simpa [hlength] using hs) hrs
    simp only [List.getElem_zip, List.getElem_range] at hrs'
    have hlt := hrs'.2.1.1 hrs
    refine lt_of_take_lt ((keyLt_key_iff hk h ?_ ?_).1 hlt)
    · exact h.size_eq ▸ hround.lt_of_mem (List.getElem_mem hr)
    · exact h.size_eq ▸ hround.lt_of_mem (List.getElem_mem hs)
  size_eq := by rw [hround.size_ranks, h.size_eq]
  rank_eq m hm := by
    have hlength := hround.length_positions
    refine hround.getD_ranks (List.mem_iff_getElem.2 ⟨m, ?_, ?_⟩)
    · simpa [classPairs] using hm
    · simp [classPairs, hclasses]

/-- A round after which all ranks differ is the last one. -/
theorem correct_of_isFinal (hround : IsRound rank k next) (hk : 0 < k) (h : RanksBy text k rank)
    (hfinal : next.isFinal = true) : next.Correct text := by
  apply hround.correct_of_classes hk h
  have hlength := hround.length_positions
  unfold Ranking.isFinal at hfinal
  split at hfinal
  · next i hi =>
    obtain ⟨c, hlast, hc⟩ := exists_last_class rank k hi
    rw [hround.getD_ranks hc, hround.size_ranks, beq_iff_eq] at hfinal
    rw [classes_eq_range' hlast (by rw [hlength, hfinal, Nat.zero_add]), hlength,
      List.range_eq_range']
  · next hnone =>
    have hempty : next.positions = [] := List.getLast?_eq_none_iff.1 hnone
    rw [hempty] at hlength ⊢
    rw [← hlength]
    rfl

/-- When whole suffixes are compared, all ranks differ. -/
theorem isFinal_of_length_le (hround : IsRound rank k next) (hk : 0 < k) (h : RanksBy text k rank)
    (hlen : text.length ≤ 2 * k) : next.isFinal = true := by
  have hlength := hround.length_positions
  have hwhole : ∀ i, (text.drop i).take (2 * k) = text.drop i := fun i =>
    List.take_of_length_le (by rw [List.length_drop]; omega)
  -- different positions start different suffixes, so along the order every key is a new one
  have hstrict : next.positions.Pairwise fun i j => keyLt (key rank k i) (key rank k j) = true := by
    have hnodup : next.positions.Nodup := hround.perm.nodup_iff.2 List.nodup_range
    apply (hround.sorted.and hnodup).imp_of_mem
    intro i j hi hj hij
    have hi := h.size_eq ▸ hround.lt_of_mem hi
    have hj := h.size_eq ▸ hround.lt_of_mem hj
    rw [keyLt_key_iff hk h hj hi, hwhole, hwhole] at hij
    rw [keyLt_key_iff hk h hi hj, hwhole, hwhole]
    exact lt_of_le_of_ne (not_lt.1 hij.1) (drop_ne hi hj hij.2)
  have hclasses := classes_of_pairwise (c := 0) hstrict
  unfold Ranking.isFinal
  split
  · next i hi =>
    obtain ⟨c, hlast, hc⟩ := exists_last_class rank k hi
    rw [hclasses, hlength, List.getLast?_range'] at hlast
    split at hlast
    · cases hlast
    · next hpos =>
      injection hlast with hlast
      rw [hround.getD_ranks hc, hround.size_ranks, beq_iff_eq]
      omega
  · rfl

end IsRound

/-! ## All rounds -/

/-- A way through the rounds, from ranks by `k` members to the first round after which all ranks
differ. -/
inductive Rounds : Array Nat → Nat → Ranking → Prop where
  | last {rank : Array Nat} {k : Nat} {next : Ranking} (hround : IsRound rank k next)
    (hfinal : next.isFinal = true) : Rounds rank k next
  | more {rank : Array Nat} {k : Nat} {next last : Ranking} (hround : IsRound rank k next)
    (hmore : ¬ next.isFinal = true) (hrest : Rounds next.ranks (2 * k) last) : Rounds rank k last

/-- Every way through the rounds ends with the suffix array and its inverse. -/
theorem Rounds.correct {text : List Nat} {rank : Array Nat} {k : Nat} {last : Ranking}
    (hrounds : Rounds rank k last) (hk : 0 < k) (h : RanksBy text k rank) : last.Correct text := by
  induction hrounds with
  | last hround hfinal => exact hround.correct_of_isFinal hk h hfinal
  | more hround _ _ ih => exact ih (Nat.mul_pos Nat.two_pos hk) (hround.ranksBy hk h)

/-- A bound on the number of rounds is not reached if it lets whole suffixes be compared. -/
theorem rounds_rankWithin {text : List Nat} (rounds : Nat) :
    ∀ {k : Nat} {rank : Array Nat}, 0 < k → RanksBy text k rank →
      text.length ≤ k * 2 ^ (rounds + 1) → Rounds rank k (rankWithin (rounds + 1) rank k) := by
  induction rounds with
  | zero =>
    intro k rank hk h hlen
    have hfinal := (isRound_refine rank k).isFinal_of_length_le hk h (by omega)
    simp only [rankWithin, hfinal, if_true]
    exact .last (isRound_refine rank k) hfinal
  | succ rounds ih =>
    intro k rank hk h hlen
    have hround := isRound_refine rank k
    unfold rankWithin
    by_cases hfinal : (refine rank k).isFinal = true
    · simp only [hfinal, if_true]
      exact .last hround hfinal
    · simp only [hfinal]
      refine .more hround hfinal (ih (by omega) (hround.ranksBy hk h) ?_)
      rw [Nat.pow_succ'] at hlen
      calc text.length ≤ k * (2 * 2 ^ (rounds + 1)) := hlen
        _ = 2 * k * 2 ^ (rounds + 1) := by rw [← Nat.mul_assoc, Nat.mul_comm k 2]

/-- The ranking of the suffixes comes out of rounds that begin with the bytes. -/
theorem rounds_rankSuffixes {text : Array UInt8} (h : 0 < text.size) :
    Rounds (text.map UInt8.toNat) 1 (rankSuffixes text) := by
  unfold rankSuffixes
  obtain ⟨rounds, hrounds⟩ := Nat.exists_eq_succ_of_ne_zero (Nat.ne_of_gt h)
  rw [hrounds]
  apply rounds_rankWithin rounds Nat.one_pos (ranksBy_one text)
  rw [length_codes, hrounds, Nat.one_mul]
  exact Nat.le_of_lt Nat.lt_two_pow_self

/-- Prefix doubling sorts the suffixes of every text that is not empty. -/
theorem correct_rankSuffixes {text : Array UInt8} (h : 0 < text.size) :
    (rankSuffixes text).Correct (codes text) :=
  (rounds_rankSuffixes h).correct Nat.one_pos (ranksBy_one text)

/-- However equal keys are put in order, the rounds end with the same ranks and positions. -/
theorem eq_rankSuffixes_of_rounds {text : Array UInt8} (h : 0 < text.size) {last : Ranking}
    (hrounds : Rounds (text.map UInt8.toNat) 1 last) : last = rankSuffixes text :=
  (hrounds.correct Nat.one_pos (ranksBy_one text)).unique (correct_rankSuffixes h)

/-- After a round that is not the last there is another one, from its ranks and by twice as many
members. -/
def Continues (after before : Array Nat × Nat) : Prop :=
  ∃ next, IsRound before.1 before.2 next ∧ ¬ next.isFinal = true ∧
    after = (next.ranks, 2 * before.2)

/-- The rounds cannot go on for ever: the number of members that are compared stays below the length
of the text. -/
theorem acc_continues {text : List Nat} {k : Nat} {rank : Array Nat} (hk : 0 < k)
    (h : RanksBy text k rank) : Acc Continues (rank, k) := by
  -- what is left of the text behind `k` members
  induction hleft : text.length - k using Nat.strong_induction_on generalizing k rank with
  | _ left ih =>
    refine Acc.intro _ ?_
    rintro _ ⟨next, hround, hmore, rfl⟩
    have hlt : 2 * k < text.length :=
      Nat.not_le.1 fun hle => hmore (hround.isFinal_of_length_le hk h hle)
    exact ih _ (by omega) (by omega) (hround.ranksBy hk h) rfl

end TextIndex.SuffixArray
