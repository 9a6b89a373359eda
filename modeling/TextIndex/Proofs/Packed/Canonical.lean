import TextIndex.Proofs.Packed.Refinement

/-!
# Compressed vectors are canonical

Two vectors that hold the same numbers may come from different operations at different widths, and
then differ in their words and in what they reserve. Compression removes these differences
(`compression_canonical`): it leaves one and the same vector of both exactly when they are equal.

In a tidy vector the words are determined by the list of elements and the width: a bit before the end
of the last element is a bit of an element (`bitAt_words`), every bit behind it is zero, and there are
no more words than the elements need, which settles them (`Tidy.words_eq`). The width that compression chooses is
determined by the list, and so is the reservation, because it is cut to the words.
-/

set_option autoImplicit false

namespace TextIndex

/-- Words are compared bit by bit. -/
theorem words_eq_of_bitAt {words words' : Array UInt64} (hsize : words.size = words'.size)
    (h : ∀ p, bitAt words p = bitAt words' p) : words = words' := by
  apply Array.ext hsize
  intro i hi hi'
  apply eq_of_bit_eq
  intro j
  by_cases hj : j < 64
  · have hword : (64 * i + j) / 64 = i := by omega
    have hbit : (64 * i + j) % 64 = j := by omega
    simpa [bitAt, hword, hbit, Array.getD, hi, hi'] using h (64 * i + j)
  · rw [bit_of_le (Nat.not_lt.1 hj), bit_of_le (Nat.not_lt.1 hj)]

namespace PackedVector

/-! ## The words of a tidy vector -/

/-- A bit of the words is a bit of the field in which it lies. -/
theorem bitAt_words {v : PackedVector} {p : Nat} (hp : p < UInt64.size) :
    bitAt v.buffer.words p = bit (v.element (p / v.width.bits)) (p % v.width.bits) := by
  have hmod : p % v.width.bits < v.width.bits := Nat.mod_lt _ v.width.one_le
  have hsplit : p / v.width.bits * v.width.bits + p % v.width.bits = p := Nat.div_add_mod' ..
  have hstart : Field.start v.width (p / v.width.bits) = p / v.width.bits * v.width.bits :=
    Field.start_eq (Nat.lt_of_le_of_lt (Nat.div_mul_le_self ..) hp)
  unfold element
  rw [Field.bit_read, decide_eq_true hmod, Bool.true_and, hstart, hsplit]

/-- Vectors with the same elements have the same length. -/
theorem length_eq_of_toList {v w : PackedVector} (h : v.toList = w.toList) :
    v.length = w.length := by
  simpa using congrArg List.length h

/-- Vectors with the same elements have the same one at each position. -/
theorem element_eq_of_toList {v w : PackedVector} (h : v.toList = w.toList) {i : Nat}
    (hi : i < v.length) : v.element i = w.element i := by
  have hi' : i < w.length := length_eq_of_toList h ▸ hi
  rw [← v.getElem_toList i (by simpa using hi), ← w.getElem_toList i (by simpa using hi')]
  exact List.getElem_of_eq h _

/-- Nothing but the width and the list of elements shows in the words. -/
theorem Tidy.words_eq {v w : PackedVector} (hv : v.Tidy) (hw : w.Tidy) (hm : v.Measured)
    (hwidth : v.width = w.width) (hlist : v.toList = w.toList) : v.buffer.words = w.buffer.words := by
  have hlength := length_eq_of_toList hlist
  apply words_eq_of_bitAt
  · rw [hv.size_eq, hw.size_eq, hlength, hwidth]
  · intro p
    by_cases hp : p < v.length * v.width.bits
    · have hplace : p / v.width.bits < v.length := (Nat.div_lt_iff_lt_mul v.width.one_le).2 hp
      have hsmall : p < UInt64.size := Nat.lt_trans hp hm
      rw [bitAt_words hsmall, bitAt_words hsmall, element_eq_of_toList hlist hplace, hwidth]
    · have hp : v.length * v.width.bits ≤ p := Nat.not_lt.1 hp
      rw [hv.tail p hp, hw.tail p (by rwa [← hlength, ← hwidth])]

/-! ## The compressed vector -/

/-- Vectors that differ in what they reserve shrink to the same. -/
theorem shrinkToFit_congr {v w : PackedVector} (hwords : v.buffer.words = w.buffer.words)
    (hlength : v.length = w.length) (hwidth : v.width = w.width) : v.shrinkToFit = w.shrinkToFit := by
  unfold shrinkToFit Buffer.fit
  simp only [hwords, hlength, hwidth]

/-- Compression never widens, so that the counter measures what it leaves. -/
theorem Measured.bitCompress {v : PackedVector} (hm : v.Measured) : v.bitCompress.Measured := by
  have hshape := v.shape_repack (.least v.maxValue)
  have hle : (Width.least v.maxValue).bits ≤ v.width.bits :=
    bits_least_le (fits_maxValue fun _ hx => fits_of_mem hx)
  exact (measured_iff (v := v.bitCompress) hshape.1 hshape.2).2 (hm.narrow hle)

/-- Compressing a vector is one of the operations. -/
theorem Reachable.bitCompress {v : PackedVector} (hv : Reachable v) : Reachable v.bitCompress :=
  hv.change .bitCompress hv.measured.bitCompress

/-- Compressing a vector re-packs it to the least width for its largest element. -/
theorem Reachable.repacked {v : PackedVector} (hv : Reachable v) :
    Repacked v (.least v.maxValue) v.bitCompress :=
  repacked_bitCompress hv.tidy.housed hv.measured

/-- What compression leaves is determined by the list of elements. -/
theorem Reachable.bitCompress_eq {v w : PackedVector} (hv : Reachable v) (hw : Reachable w)
    (h : v.toList = w.toList) : v.bitCompress = w.bitCompress := by
  have hmax : v.maxValue = w.maxValue := congrArg (List.foldl max 0) h
  have hwidth : v.bitCompress.width = w.bitCompress.width := by
    rw [hv.repacked.width_eq, hw.repacked.width_eq, hmax]
  have hlist : v.bitCompress.toList = w.bitCompress.toList := by
    rw [hv.repacked.toList_eq, hw.repacked.toList_eq, h]
  have hwords : v.bitCompress.buffer.words = w.bitCompress.buffer.words :=
    hv.bitCompress.tidy.words_eq hw.bitCompress.tidy hv.bitCompress.measured hwidth hlist
  -- both are shrunk, so that they reserve their words and no others
  exact shrinkToFit_congr hwords (length_eq_of_toList hlist) hwidth

/-! ## Every two vectors -/

/-- Vectors are compared by their elements; their widths do not matter. -/
theorem beq_iff_toList {v w : PackedVector} : (v == w) = true ↔ v.toList = w.toList := by
  show (v.length == w.length && v.toList == w.toList) = true ↔ _
  rw [Bool.and_eq_true, beq_iff_eq, beq_iff_eq]
  exact and_iff_right_of_imp length_eq_of_toList

/-- Equality looks at the number of elements and at each element, and at nothing else. -/
theorem beq_iff_get? {v w : PackedVector} :
    (v == w) = true ↔ v.length = w.length ∧ ∀ i, v.get? i = w.get? i := by
  rw [beq_iff_toList]
  constructor
  · intro h
    exact ⟨length_eq_of_toList h, fun i => by rw [v.get?_eq, w.get?_eq, h]⟩
  · rintro ⟨-, hget⟩
    apply List.ext_getElem?
    intro i
    rw [← v.get?_eq, ← w.get?_eq, hget i]

/-- What compression makes of two vectors, and of the first one when it is compressed again. -/
structure CompressAlike (v w : PackedVector) : Prop where
  beq_iff : (v == w) = true ↔ v.length = w.length ∧ ∀ i, v.get? i = w.get? i
  width_eq : (v == w) = true → v.bitCompress.width = w.bitCompress.width
  words_eq : (v == w) = true → v.bitCompress.buffer.words = w.bitCompress.buffer.words
  heapBytes_eq : (v == w) = true → v.bitCompress.heapBytes = w.bitCompress.heapBytes
  /-- No difference between equal vectors is left, and none between others is lost. -/
  compressed_iff : v.bitCompress = w.bitCompress ↔ (v == w) = true
  again : v.bitCompress.bitCompress = v.bitCompress

/-- Whatever the two vectors have gone through, and at whatever widths. -/
theorem compression_canonical (v w : PackedVector) (hv : Reachable v) (hw : Reachable w) :
    v.CompressAlike w := by
  have halike : (v == w) = true → v.bitCompress = w.bitCompress := fun h =>
    hv.bitCompress_eq hw (beq_iff_toList.1 h)
  refine
    { beq_iff := beq_iff_get?
      width_eq := fun h => by rw [halike h]
      words_eq := fun h => by rw [halike h]
      heapBytes_eq := fun h => by rw [halike h]
      compressed_iff := ⟨fun h => ?_, halike⟩
      again := hv.bitCompress.bitCompress_eq hv hv.repacked.toList_eq }
  rw [beq_iff_toList, ← hv.repacked.toList_eq, ← hw.repacked.toList_eq, h]

/-- Three elements of 41 bits cut to two, and two of 64 bits of which one was replaced: they occupy
different words, are equal, and compress to two words at 41 bits each. -/
theorem compression_canonical_after_cut_and_replacement :
    ∃ v w : PackedVector, Reachable v ∧ Reachable w ∧ v.buffer.words ≠ w.buffer.words ∧
      (v == w) = true ∧ v.CompressAlike w ∧ w.bitCompress.width.bits = 41 := by
  have hmake : (Source.ofList 41 [5, 0x10000000000, 7]).make = .ok ⟨_, _, _⟩ := rfl
  have hmake' : (Source.ofList 64 [5, 6]).make = .ok ⟨_, _, _⟩ := rfl
  have hcut := (Reachable.make hmake (by decide)).change (.resize 2 0) (by decide)
  have hreplaced := (Reachable.make hmake' (by decide)).change (.set 1 0x10000000000) (by decide)
  exact ⟨_, _, hcut, hreplaced, by decide +kernel, by decide +kernel,
    compression_canonical _ _ hcut hreplaced, by decide +kernel⟩

end PackedVector

end TextIndex
