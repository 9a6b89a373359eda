import TextIndex.Proofs.Packed.Elements

/-!
# Changing the length

Cutting a vector short leaves bits of the elements that were cut off in its last word, and clearing
them makes it tidy again (`bitAt_clearTail`). Making it longer relies on them having been cleared: the
bits behind the last element of a tidy vector are zero, so the new elements are zero until they are
written (`toList_resize`).
-/

set_option autoImplicit false

namespace TextIndex.PackedVector

/-! ## Clearing the last word -/

/-- The bits of a number that is one below a power of two. -/
theorem bit_lowBits {n : Nat} (h : n < 64) (j : Nat) :
    bit ((1 <<< n.toUInt64) - 1) j = decide (j < n) := by
  have hpow : (1 <<< n.toUInt64 : UInt64).toNat = 2 ^ n := by
    rw [UInt64.toNat_shiftLeft, toNat_shift h]
    show 1 <<< n % 2 ^ 64 = 2 ^ n
    rw [Nat.one_shiftLeft, Nat.mod_eq_of_lt (Nat.pow_lt_pow_right (by decide) h)]
  have hone : (1 : UInt64) ≤ 1 <<< n.toUInt64 := by
    rw [UInt64.le_iff_toNat_le, hpow]
    exact Nat.one_le_two_pow
  unfold bit
  rw [UInt64.toNat_sub_of_le _ _ hone, hpow]
  exact Nat.testBit_two_pow_sub_one n j

/-- Where the elements fill their last word there is no tail. -/
theorem clearTail_of_full {v : PackedVector} (h : v.bitSize % 64 = 0) : v.clearTail = v := if_pos h

/-- A last word that is not full keeps its lowest bits. -/
theorem clearTail_of_partial {v : PackedVector} (h : v.bitSize % 64 ≠ 0) :
    v.clearTail.length = v.length ∧ v.clearTail.width = v.width ∧
      v.clearTail.buffer.words = v.buffer.words.modify (v.buffer.words.size - 1)
        (· &&& ((1 <<< (v.bitSize % 64).toUInt64) - 1)) := by
  have hcleared : v.clearTail = _ := if_neg h
  rw [hcleared]
  exact ⟨rfl, rfl, rfl⟩

/-- Clearing the tail removes no elements. -/
@[simp] theorem length_clearTail (v : PackedVector) : v.clearTail.length = v.length := by
  by_cases h : v.bitSize % 64 = 0
  · rw [clearTail_of_full h]
  · exact (clearTail_of_partial h).1

/-- Clearing the tail keeps the width. -/
@[simp] theorem width_clearTail (v : PackedVector) : v.clearTail.width = v.width := by
  by_cases h : v.bitSize % 64 = 0
  · rw [clearTail_of_full h]
  · exact (clearTail_of_partial h).2.1

/-- Clearing the tail removes no words. -/
@[simp] theorem size_clearTail (v : PackedVector) :
    v.clearTail.buffer.words.size = v.buffer.words.size := by
  by_cases h : v.bitSize % 64 = 0
  · rw [clearTail_of_full h]
  · rw [(clearTail_of_partial h).2.2, Array.size_modify]

/-- Exactly the bits past the last element are cleared. -/
theorem bitAt_clearTail {v : PackedVector} (hm : v.width.Measures v.length)
    (hsize : v.buffer.words.size = (v.length * v.width.bits + 63) / 64) (p : Nat) :
    bitAt v.clearTail.buffer.words p =
      (decide (p < v.length * v.width.bits) && bitAt v.buffer.words p) := by
  have hbits : v.bitSize = v.length * v.width.bits := Nat.mod_eq_of_lt hm
  rw [← hbits] at hsize ⊢
  -- behind the words there are no bits, whether they are cleared or not
  by_cases hout : 64 * v.buffer.words.size ≤ p
  · rw [bitAt_of_le hout, Bool.and_false]
    apply bitAt_of_le
    rwa [size_clearTail]
  by_cases hused : v.bitSize % 64 = 0
  · rw [clearTail_of_full hused, decide_eq_true (by omega), Bool.true_and]
  · rw [(clearTail_of_partial hused).2.2]
    unfold bitAt
    have hin : p / 64 < v.buffer.words.size := by omega
    by_cases hlast : v.buffer.words.size - 1 = p / 64
    · have hlow : p < v.bitSize ↔ p % 64 < v.bitSize % 64 := by omega
      simp [Array.getD_eq_getD_getElem?, Array.getElem_modify, hlast, hin, hlow,
        bit_lowBits (Nat.mod_lt v.bitSize (by decide : 0 < 64)), Bool.and_comm]
    · have hlow : p < v.bitSize := by omega
      simp [Array.getD_eq_getD_getElem?, Array.getElem?_modify, hlast, hlow]

/-- A vector with the right number of words is tidy once its tail is clear. -/
theorem tidy_clearTail {v : PackedVector} (hm : v.width.Measures v.length)
    (hsize : v.buffer.words.size = (v.length * v.width.bits + 63) / 64) : v.clearTail.Tidy where
  size_eq := by
    rw [size_clearTail, length_clearTail, width_clearTail]
    exact hsize
  tail p hp := by
    rw [length_clearTail, width_clearTail] at hp
    rw [bitAt_clearTail hm hsize, decide_eq_false (Nat.not_lt.2 hp), Bool.false_and]

/-- Clearing the bits past the last element changes no element. -/
theorem element_clearTail {v : PackedVector} (hm : v.width.Measures v.length)
    (hsize : v.buffer.words.size = (v.length * v.width.bits + 63) / 64) {i : Nat}
    (hi : i < v.length) : v.clearTail.element i = v.element i := by
  unfold element
  rw [width_clearTail]
  apply Field.read_of_bits hi
  intro p hp
  rw [bitAt_clearTail hm hsize, decide_eq_true hp, Bool.true_and]

/-! ## Filling -/

/-- The elements from `start` on, up to `stop`, have been overwritten by `value`. -/
structure Filled (v : PackedVector) (start stop : Nat) (value : UInt64) (u : PackedVector) : Prop where
  length_eq : u.length = v.length
  width_eq : u.width = v.width
  size_eq : u.buffer.words.size = v.buffer.words.size
  element_eq : ∀ i, i < v.length →
    u.element i = if start ≤ i ∧ i < stop then value else v.element i
  tail_eq : ∀ p, v.length * v.width.bits ≤ p → bitAt u.buffer.words p = bitAt v.buffer.words p

/-- Writing the next element fills one position more. -/
theorem Filled.snoc {v u : PackedVector} {start stop : Nat} {value : UInt64} (hv : v.Housed)
    (hm : v.width.Measures v.length) (hfits : v.width.Fits value) (h : Filled v start stop value u)
    (hstart : start ≤ stop) (hstop : stop < v.length) :
    Filled v start (stop + 1) value (u.writeAt u.width stop value) := by
  have hroom : Field.start u.width stop + u.width.bits ≤ 64 * u.buffer.words.size := by
    rw [h.width_eq, h.size_eq]
    exact hv.field_le hstop
  have hfits' : u.width.Fits value := by rwa [h.width_eq]
  have hm' : u.width.Measures v.length := by rwa [h.width_eq]
  refine ⟨h.length_eq, h.width_eq, ?_, ?_, ?_⟩
  · rw [words_writeAt, Field.size_write]
    exact h.size_eq
  · intro i hi
    have hold := h.element_eq i hi
    unfold element at hold ⊢
    rw [width_writeAt, words_writeAt]
    by_cases his : i = stop
    · subst his
      rw [Field.read_write_self hroom hfits', if_pos (by omega)]
    · rw [Field.read_write_of_ne hm' hroom hfits' hstop hi his, hold]
      exact if_congr (by omega) rfl rfl
  · intro p hp
    have hfield := Field.end_le (w := v.width) hstop
    rw [words_writeAt, Field.bitAt_write hroom hfits', h.width_eq, if_neg (by omega)]
    exact h.tail_eq p hp

/-- Writing one element after the other fills a run of positions. -/
theorem filled_range' {v : PackedVector} {start : Nat} {value : UInt64} (hv : v.Housed)
    (hm : v.width.Measures v.length) (hfits : v.width.Fits value) (n : Nat)
    (hn : start + n ≤ v.length) :
    Filled v start (start + n) value
      ((List.range' start n).foldl (fun v i => v.writeAt v.width i value) v) := by
  induction n with
  | zero =>
    refine ⟨rfl, rfl, rfl, ?_, fun _ _ => rfl⟩
    intro i _
    rw [if_neg (by omega)]
    rfl
  | succ n ih =>
    have hstart : start ≤ start + n := Nat.le_add_right ..
    have hstop : start + n < v.length := hn
    rw [List.range'_1_concat, List.foldl_append]
    exact (ih (Nat.le_of_lt hstop)).snoc hv hm hfits hstart hstop

/-! ## Resizing -/

/-- Filling changes neither the length nor the width, nor the number of words. -/
theorem shape_fillFrom (v : PackedVector) (start : Nat) (value : UInt64) :
    (v.fillFrom start value).length = v.length ∧ (v.fillFrom start value).width = v.width ∧
      (v.fillFrom start value).buffer.size = v.buffer.size := by
  unfold fillFrom
  generalize List.range' start (v.length - start) = places
  induction places generalizing v with
  | nil => exact ⟨rfl, rfl, rfl⟩
  | cons i rest ih =>
    obtain ⟨hlength, hwidth, hsize⟩ := ih (v.writeAt v.width i value)
    exact ⟨hlength, hwidth, hsize.trans (Field.size_write ..)⟩

/-- What `resize` returns has the length that was asked for, and the words reckoned for it. -/
theorem shape_resize {v v' : PackedVector} {length : Nat} {value : UInt64}
    (h : v.resize length value = .ok v') :
    v'.length = length ∧ v'.width = v.width ∧ v'.buffer.size = v.width.wordsFor length := by
  obtain ⟨_, -, hend⟩ := bind_eq_ok.1 h
  injection hend with hend
  subst hend
  have hsize := v.buffer.size_resize (v.width.wordsFor length)
  split
  · exact ⟨length_clearTail _, width_clearTail _, (size_clearTail _).trans hsize⟩
  · split
    · exact ⟨rfl, rfl, hsize⟩
    · obtain ⟨hlength, hwidth, hfilled⟩ := shape_fillFrom _ v.length value
      exact ⟨hlength, hwidth, hfilled.trans hsize⟩

/-- `resize` refuses a value that does not fit, and nothing else. -/
theorem resize_of_not_fits {v : PackedVector} {length : Nat} {value : UInt64}
    (h : ¬ v.width.Fits value) :
    v.resize length value = .error (.valueTooWide value v.width.bits) := by
  unfold resize
  rw [Width.check_of_not_fits h]
  rfl

/-- A vector is resized to any length if the value for the new elements fits. -/
theorem resize_of_fits (v : PackedVector) (length : Nat) {value : UInt64}
    (h : v.width.Fits value) :
    ∃ v', v.resize length value = .ok v' ∧ v'.length = length ∧ v'.width = v.width := by
  obtain ⟨v', hok⟩ : ∃ v', v.resize length value = .ok v' := by
    unfold resize
    rw [Width.check_of_fits h]
    exact ⟨_, rfl⟩
  obtain ⟨hlength, hwidth, -⟩ := shape_resize hok
  exact ⟨v', hok, hlength, hwidth⟩

/-- A vector is the list with the same entries. -/
theorem toList_eq_of_getElem? {v : PackedVector} {l : List UInt64} (hlength : l.length = v.length)
    (h : ∀ i, i < v.length → l[i]? = some (v.element i)) : v.toList = l := by
  apply List.ext_getElem?
  intro i
  rw [getElem?_toList]
  unfold get?
  by_cases hi : i < v.length
  · rw [if_pos hi, h i hi]
  · rw [if_neg hi, List.getElem?_eq_none (by omega)]

/-- What cutting a vector short returns. -/
theorem tidy_cut {v : PackedVector} {length : Nat} (hm : v.width.Measures length)
    (hshort : length < v.length) :
    let cut := { v with buffer := v.buffer.resize (v.width.wordsFor length), length }.clearTail
    cut.Tidy ∧ cut.toList = v.toList.take length := by
  have hwords := Width.wordsFor_eq hm
  have hsize : (v.buffer.resize (v.width.wordsFor length)).words.size =
      (length * v.width.bits + 63) / 64 := (Buffer.size_resize ..).trans hwords
  refine ⟨tidy_clearTail hm hsize, ?_⟩
  apply toList_eq_of_getElem?
  · rw [length_clearTail, List.length_take, length_toList]
    exact Nat.min_eq_left (Nat.le_of_lt hshort)
  · intro i hi
    rw [length_clearTail] at hi
    have hi : i < length := hi
    rw [element_clearTail hm hsize hi, List.getElem?_take_of_lt hi, getElem?_toList]
    unfold get?
    rw [if_pos (Nat.lt_trans hi hshort)]
    apply congrArg some
    symm
    apply Field.read_of_bits hi
    intro p hp
    have hp : p < length * v.width.bits := hp
    rw [Buffer.bitAt_resize, decide_eq_true (by omega), Bool.true_and]

/-- Making room for more elements gives a tidy vector in which the new elements are zero. -/
theorem tidy_extended {v : PackedVector} {length : Nat} (hv : v.Tidy) (hm : v.width.Measures length)
    (hlong : v.length ≤ length) :
    let grown := { v with buffer := v.buffer.resize (v.width.wordsFor length), length }
    grown.Tidy ∧ ∀ i, i < length → grown.element i = if i < v.length then v.element i else 0 := by
  have hwords := Width.wordsFor_eq hm
  have hmul := Nat.mul_le_mul_right v.width.bits hlong
  have hbits : ∀ p, bitAt (v.buffer.resize (v.width.wordsFor length)).words p =
      bitAt v.buffer.words p := by
    intro p
    rw [Buffer.bitAt_resize]
    by_cases hp : p < 64 * v.width.wordsFor length
    · rw [decide_eq_true hp, Bool.true_and]
    · rw [decide_eq_false hp, Bool.false_and, hv.tail p (by omega)]
  refine ⟨⟨(Buffer.size_resize ..).trans hwords, fun p hp => ?_⟩, fun i hi => ?_⟩
  · rw [hbits]
    exact hv.tail p (Nat.le_trans hmul hp)
  · split
    · next hold => exact Field.read_of_bits hold fun p _ => hbits p
    · next hnew =>
      have hstart := Nat.mul_le_mul_right v.width.bits (Nat.not_lt.1 hnew)
      have hfirst := Field.start_eq (hm.mono (Nat.le_of_lt hi))
      apply eq_of_bit_eq
      intro j
      show bit (Field.read (v.buffer.resize (v.width.wordsFor length)).words v.width i) j = bit 0 j
      rw [Field.bit_read, hbits, hv.tail _ (by omega), Bool.and_false, bit_zero]

/-- Filling a tidy vector from a position on leaves the elements before it. -/
theorem tidy_fillFrom {v : PackedVector} {start : Nat} {value : UInt64} (hv : v.Tidy)
    (hm : v.width.Measures v.length) (hfits : v.width.Fits value) (hstart : start ≤ v.length) :
    (v.fillFrom start value).Tidy ∧ ∀ i, i < v.length →
      (v.fillFrom start value).element i = if i < start then v.element i else value := by
  have hstop : start + (v.length - start) = v.length := Nat.add_sub_cancel' hstart
  have hfilled : Filled v start (start + (v.length - start)) value (v.fillFrom start value) :=
    filled_range' hv.housed hm hfits (v.length - start) (Nat.le_of_eq hstop)
  refine ⟨⟨?_, ?_⟩, ?_⟩
  · rw [hfilled.size_eq, hfilled.length_eq, hfilled.width_eq]
    exact hv.size_eq
  · intro p hp
    rw [hfilled.length_eq, hfilled.width_eq] at hp
    exact (hfilled.tail_eq p hp).trans (hv.tail p hp)
  · intro i hi
    rw [hfilled.element_eq i hi]
    by_cases hold : i < start
    · rw [if_neg (by omega), if_pos hold]
    · rw [if_pos (by omega), if_neg hold]

/-- Elements followed by copies of one value. -/
theorem toList_of_element_append {v v' : PackedVector} {length : Nat} {value : UInt64}
    (hlong : v.length ≤ length) (hlength : v'.length = length)
    (h : ∀ i, i < length → v'.element i = if i < v.length then v.element i else value) :
    v'.toList = v.toList ++ List.replicate (length - v.length) value := by
  subst hlength
  apply toList_eq_of_getElem?
  · rw [List.length_append, List.length_replicate, length_toList]
    omega
  · intro i hi
    rw [h i hi]
    split
    · next hold =>
      rw [List.getElem?_append_left (by rwa [length_toList]), getElem?_toList]
      exact if_pos hold
    · next hold =>
      rw [List.getElem?_append_right (by rw [length_toList]; exact Nat.not_lt.1 hold),
        length_toList, List.getElem?_replicate, if_pos (by omega)]

/-- What `resize` returns: the first elements, and `value` where there were none. -/
theorem toList_resize {v v' : PackedVector} {length : Nat} {value : UInt64} (hv : v.Tidy)
    (hm : v.width.Measures length) (h : v.resize length value = .ok v') :
    v'.Tidy ∧ v'.toList = v.toList.take length ++ List.replicate (length - v.length) value := by
  obtain ⟨u, hcheck, hend⟩ := bind_eq_ok.1 h
  injection hend with hend
  have hfits : v.width.Fits value := Width.check_eq_ok_iff.1 hcheck
  by_cases hshort : length < v.length
  · rw [if_pos hshort] at hend
    subst hend
    obtain ⟨htidy, hlist⟩ := tidy_cut hm hshort
    refine ⟨htidy, ?_⟩
    rw [hlist, Nat.sub_eq_zero_of_le (Nat.le_of_lt hshort), List.replicate_zero, List.append_nil]
  · have hlong := Nat.not_lt.1 hshort
    obtain ⟨htidy, helement⟩ := tidy_extended hv hm hlong
    rw [if_neg hshort] at hend
    rw [List.take_of_length_le (by rw [length_toList]; exact hlong)]
    split at hend
    · next hzero =>
      subst hend
      rw [hzero]
      exact ⟨htidy, toList_of_element_append hlong rfl helement⟩
    · subst hend
      obtain ⟨htidy', helement'⟩ := tidy_fillFrom htidy hm hfits hlong
      refine ⟨htidy', toList_of_element_append hlong (shape_fillFrom ..).1 ?_⟩
      intro i hi
      rw [helement' i hi]
      split
      · next hold => rw [helement i hi, if_pos hold]
      · rfl

/-- The vector of `n` times `value` stands for the list of that. -/
theorem toList_replicate? {w : Width} {n : Nat} {value : UInt64} {v : PackedVector}
    (hm : w.Measures n) (h : replicate? w n value = .ok v) :
    v.Tidy ∧ v.toList = List.replicate n value := by
  have hempty : (empty w).Tidy := tidy_of_length_eq_zero rfl rfl
  obtain ⟨htidy, hlist⟩ := toList_resize hempty hm h
  exact ⟨htidy, by rw [hlist]; simp [toList, empty]⟩

end TextIndex.PackedVector
