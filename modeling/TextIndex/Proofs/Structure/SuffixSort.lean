import TextIndex.Proofs.Structure.Capacity

/-!
# Building the suffix array

A text that ends with its least member is sorted in rounds that come to an end, and the end does not
depend on how positions with equal keys are put in order: it is the suffix array of the text and its
inverse. Storing them fails for a width that does not hold the last position, and only then.

* `Acc Continues` is the termination of the loop, `Rounds` its outcome.
* `Built` is what the loop leaves at a width that is wide enough.
-/

set_option autoImplicit false

namespace TextIndex.SuffixArray

open PackedVector (values)

/-- The packed suffix array of a text, with its inverse, which is also what inverting it gives. -/
structure Built (text : Array UInt8) (w : Width) (pair : Pair) : Prop where
  sorts : Sorts (codes text) pair.positions.values
  only : ∀ positions, Sorts (codes text) positions → positions = pair.positions.values
  length_ranks : pair.ranks.values.length = text.size
  rank_eq : ∀ r i : Nat, pair.positions.values[r]? = some i → pair.ranks.values[i]? = some r
  inverted : ∃ ranks, invert pair.positions w = .ok ranks ∧ ranks.values = pair.ranks.values

/-- The suffixes of a text are sorted by prefix doubling, for elements of a width. -/
structure SortedByDoubling (text : Array UInt8) (w : Width) : Prop where
  terminates : Acc Continues (text.map UInt8.toNat, 1)
  rounds_iff : ∀ last, Rounds (text.map UInt8.toNat) 1 last ↔ last = rankSuffixes text
  built : text.size - 1 < 2 ^ w.bits → ∃ pair, build text w = .ok pair ∧ Built text w pair
  refused : 2 ^ w.bits ≤ text.size - 1 →
    build text w = .error (.valueTooWide (text.size - 1).toUInt64 w.bits)

/-- The suffixes of a text for which there is room are sorted, and the arrays are as they should be. -/
theorem exists_built {text : Array UInt8} {w : Width} (hpos : 0 < text.size)
    (hm : w.Measures text.size) (hw : text.size ≤ w.bound) :
    ∃ pair, build text w = .ok pair ∧ Built text w pair := by
  have hn := hm.lt_size
  obtain ⟨pair, hpair⟩ := exists_build hn hpos hw
  refine ⟨pair, hpair, ?_⟩
  have hsa := (correct_rankSuffixes hpos).sorts
  obtain ⟨hpositions, hranks⟩ := holds_build hm hpos hsa hpair
  rw [← length_codes text] at hm hn hw
  obtain ⟨ranks, hinvert⟩ := exists_invert hn hsa hw hpositions
  have hvalues := values_of_holds hsa hpositions
  have hinverted := holds_invert hm hsa hpositions hinvert
  constructor
  case sorts => rwa [hvalues]
  case only =>
    intro positions hpositions
    rw [hvalues]
    exact hpositions.unique hsa
  case length_ranks => rw [hranks.right.length_eq, length_codes]
  case rank_eq =>
    intro r i hri
    rw [hvalues] at hri
    obtain ⟨hr, hri⟩ := List.getElem?_eq_some_iff.1 hri
    have hentry := hranks.right.entry_eq r (hsa.length_eq ▸ hr)
    have hplace : place (rankSuffixes text).positions .inverse r = i := by
      rw [← hri]
      exact List.getD_eq_getElem _ _ hr
    rwa [hplace] at hentry
  case inverted => exact ⟨ranks, hinvert, hinverted.right.unique hsa hranks.right⟩

/-- Prefix doubling sorts the suffixes of every text that ends with its least member, at every width.
The storage counter has to measure the text, which is a condition on the widest widths only. -/
theorem sortedByDoubling {text : Array UInt8} {w : Width} (hend : EndsWithLeast (codes text))
    (hn : text.size < UInt64.size) (hm : 58 < w.bits → w.Measures text.size) :
    SortedByDoubling text w := by
  have hpos : 0 < text.size := length_codes text ▸ hend.length_pos
  constructor
  case terminates => exact acc_continues Nat.one_pos (ranksBy_one text)
  case rounds_iff =>
    intro last
    constructor
    · exact eq_rankSuffixes_of_rounds hpos
    · rintro rfl
      exact rounds_rankSuffixes hpos
  case built =>
    intro hlast
    have hw : text.size ≤ w.bound := Nat.le_of_pred_lt hlast
    exact exists_built hpos (measures_of_le_bound hw hm) hw
  case refused =>
    intro hlast
    exact build_refused hend hn (Nat.lt_of_le_of_lt hlast (Nat.sub_lt hpos Nat.one_pos))

/-- With three bits for each element a text of five bytes is sorted; two bits are too few. -/
theorem sortedByDoubling_five :
    (∃ pair, build #[98, 97, 98, 97, 7] ⟨3, by decide, by decide⟩ = .ok pair ∧
      pair.positions.values = [4, 3, 1, 2, 0]) ∧
    build #[98, 97, 98, 97, 7] ⟨2, by decide, by decide⟩ = .error (.valueTooWide 4 2) := by
  have hend : EndsWithLeast (codes #[98, 97, 98, 97, 7]) :=
    ⟨[98, 97, 98, 97], 7, by decide, by decide⟩
  constructor
  · have hsorted := sortedByDoubling (w := ⟨3, by decide, by decide⟩) hend (by decide)
      (fun hwide => absurd hwide (by decide))
    obtain ⟨pair, hpair, hbuilt⟩ := hsorted.built (by decide)
    exact ⟨pair, hpair, (hbuilt.only _ ⟨by decide, by decide⟩).symm⟩
  · have hsorted := sortedByDoubling (w := ⟨2, by decide, by decide⟩) hend (by decide)
      (fun hwide => absurd hwide (by decide))
    exact hsorted.refused (by decide)

end TextIndex.SuffixArray
