import Mathlib.Data.Nat.Bitwise
import TextIndex.Packed.Field

/-!
# Bits behind packed fields

An array of words is seen as one row of bits, in which bit `p` is bit `p % 64` of word `p / 64`; past
the last word all bits are zero. In this view a field is an interval of bits: reading it gives these
bits (`bit_read`), writing it replaces them and no others (`bitAt_write`). That a field may lie across
two words is seen here and nowhere else.
-/

set_option autoImplicit false

namespace TextIndex

/-! ## Bits of a word -/

/-- Bit `j` of a word, counted from the least significant one. -/
def bit (x : UInt64) (j : Nat) : Bool := x.toNat.testBit j

/-- Beyond the sixty-fourth bit there are none. -/
theorem bit_of_le {x : UInt64} {j : Nat} (h : 64 ≤ j) : bit x j = false :=
  Nat.testBit_lt_two_pow (Nat.lt_of_lt_of_le x.toNat_lt (Nat.pow_le_pow_right (by decide) h))

/-- Words with the same bits are the same. -/
theorem eq_of_bit_eq {x y : UInt64} (h : ∀ j, bit x j = bit y j) : x = y :=
  UInt64.toNat_inj.1 (Nat.eq_of_testBit_eq h)

/-- The zero word has no bits. -/
@[simp] theorem bit_zero (j : Nat) : bit 0 j = false := Nat.zero_testBit j

/-- The bits of either word. -/
@[simp] theorem bit_or (x y : UInt64) (j : Nat) : bit (x ||| y) j = (bit x j || bit y j) := by
  simp [bit, Nat.testBit_or]

/-- The bits that both words have. -/
@[simp] theorem bit_and (x y : UInt64) (j : Nat) : bit (x &&& y) j = (bit x j && bit y j) := by
  simp [bit, Nat.testBit_and]

/-- A shift by fewer bits than a word has is not reduced. -/
theorem toNat_shift {n : Nat} (h : n < 64) : n.toUInt64.toNat % 64 = n := by
  rw [UInt64.toNat_ofNat_of_lt' (Nat.lt_trans h (by decide))]
  exact Nat.mod_eq_of_lt h

/-- Shifting to the right lowers the place of every bit. -/
theorem bit_shiftRight {x : UInt64} {n j : Nat} (h : n < 64) :
    bit (x >>> n.toUInt64) j = bit x (n + j) := by
  unfold bit
  rw [UInt64.toNat_shiftRight, toNat_shift h, Nat.testBit_shiftRight]

/-- Shifting to the left raises the place of every bit, and the highest are lost. -/
theorem bit_shiftLeft {x : UInt64} {n j : Nat} (h : n < 64) :
    bit (x <<< n.toUInt64) j = (decide (n ≤ j ∧ j < 64) && bit x (j - n)) := by
  unfold bit
  rw [UInt64.toNat_shiftLeft, toNat_shift h, Nat.testBit_mod_two_pow, Nat.testBit_shiftLeft]
  by_cases h1 : j < 64 <;> by_cases h2 : n ≤ j <;> simp [h1, h2]

/-- Every bit becomes the other one. -/
theorem bit_not {x : UInt64} {j : Nat} (h : j < 64) : bit (~~~x) j = !bit x j := by
  have hx : x.toNat < 2 ^ 64 := x.toNat_lt
  unfold bit
  rw [UInt64.toNat_not]
  show Nat.testBit (2 ^ 64 - 1 - x.toNat) j = _
  rw [Nat.sub_sub, Nat.add_comm, Nat.testBit_two_pow_sub_succ hx]
  simp [h]

/-- The mask of a width has its lowest bits. -/
@[simp] theorem bit_mask (w : Width) (j : Nat) : bit w.mask j = decide (j < w.bits) := by
  have hle := w.le_word
  have hpos := w.one_le
  unfold Width.mask
  rw [bit_shiftRight (by omega)]
  show Nat.testBit (2 ^ 64 - 1) (64 - w.bits + j) = _
  rw [Nat.testBit_two_pow_sub_one]
  exact decide_eq_decide.2 (by omega)

/-- A value that fits a width has no bits beyond it. -/
theorem bit_of_fits {w : Width} {x : UInt64} (h : w.Fits x) {j : Nat} (hj : w.bits ≤ j) :
    bit x j = false :=
  Nat.testBit_lt_two_pow (Nat.lt_of_lt_of_le h (Nat.pow_le_pow_right (by decide) hj))

/-- A value without bits beyond a width fits it. -/
theorem fits_of_bit {w : Width} {x : UInt64} (h : ∀ j, w.bits ≤ j → bit x j = false) :
    w.Fits x :=
  Nat.lt_pow_two_of_testBit _ h

/-! ## Bits of an array -/

/-- Bit `p` of an array of words. -/
def bitAt (words : Array UInt64) (p : Nat) : Bool := bit (words.getD (p / 64) 0) (p % 64)

/-- Behind the last word there are no bits. -/
theorem bitAt_of_le {words : Array UInt64} {p : Nat} (h : 64 * words.size ≤ p) :
    bitAt words p = false := by
  have hnone : words[p / 64]? = none := Array.getElem?_eq_none (by omega)
  simp [bitAt, Array.getD_eq_getD_getElem?, hnone]

/-- Patching clears the bits of the hole in one word and then sets the new ones. -/
theorem bitAt_patch (words : Array UInt64) (place : Nat) (hole bits : UInt64) (p : Nat) :
    bitAt (Field.patch words place hole bits) p =
      if p / 64 = place ∧ place < words.size then
        (bitAt words p && !bit hole (p % 64)) || bit bits (p % 64)
      else bitAt words p := by
  have hp : p % 64 < 64 := Nat.mod_lt _ (by decide)
  unfold bitAt Field.patch
  by_cases hsize : p / 64 < words.size
  · by_cases hplace : place = p / 64
    · subst hplace
      simp [hsize, Array.getD_eq_getD_getElem?, Array.getElem_modify, bit_not hp]
    · simp [hplace, Ne.symm hplace, Array.getD_eq_getD_getElem?, Array.getElem?_modify]
  · have hno : ¬ (p / 64 = place ∧ place < words.size) := by omega
    rw [if_neg hno]
    simp [Array.getD_eq_getD_getElem?, hsize]

namespace Field

/-- The bits of a field. -/
theorem bit_read (words : Array UInt64) (w : Width) (i j : Nat) :
    bit (read words w i) j = (decide (j < w.bits) && bitAt words (start w i + j)) := by
  have hle := w.le_word
  have hoff : offset w i < 64 := Nat.mod_lt _ (by decide)
  have hstart : start w i = 64 * word w i + offset w i := (Nat.div_add_mod _ _).symm
  unfold read
  rw [bit_and, bit_mask, Bool.and_comm]
  by_cases hj : j < w.bits
  swap
  · simp [hj]
  simp only [hj, decide_true, Bool.true_and]
  unfold bitAt
  rw [hstart]
  by_cases hlow : offset w i + j < 64
  · -- the bit lies in the word in which the field starts
    have hword : (64 * word w i + offset w i + j) / 64 = word w i := by omega
    have hmod : (64 * word w i + offset w i + j) % 64 = offset w i + j := by omega
    rw [hword, hmod]
    split
    · next hspill =>
      have hspill : 64 < offset w i + w.bits := hspill
      rw [bit_or, bit_shiftRight hoff, bit_shiftLeft (by omega)]
      have hno : ¬ (64 - offset w i ≤ j ∧ j < 64) := by omega
      rw [decide_eq_false hno, Bool.false_and, Bool.or_false]
    · rw [bit_shiftRight hoff]
  · -- the bit lies in the spill
    have hspill : Spills w i := by
      show 64 < offset w i + w.bits
      omega
    have hword : (64 * word w i + offset w i + j) / 64 = word w i + 1 := by omega
    have hmod : (64 * word w i + offset w i + j) % 64 = j - (64 - offset w i) := by omega
    have hyes : 64 - offset w i ≤ j ∧ j < 64 := by omega
    rw [if_pos hspill, hword, hmod, bit_or, bit_shiftRight hoff, bit_shiftLeft (by omega),
      bit_of_le (by omega)]
    simp [hyes]

/-- A field is read off its bits alone, wherever it stands. -/
theorem read_congr {words words' : Array UInt64} {w w' : Width} {i i' : Nat}
    (hw : w.bits = w'.bits)
    (h : ∀ j, j < w.bits → bitAt words (start w i + j) = bitAt words' (start w' i' + j)) :
    read words w i = read words' w' i' := by
  apply eq_of_bit_eq
  intro j
  rw [bit_read, bit_read, ← hw]
  by_cases hj : j < w.bits
  · rw [h j hj, hw]
  · simp [hj]

/-- The value of a field fits its width. -/
theorem fits_read (words : Array UInt64) (w : Width) (i : Nat) : w.Fits (read words w i) :=
  fits_of_bit fun j hj => by
    rw [bit_read]
    simp [Nat.not_lt.2 hj]

/-- What a write does to the word in which its field starts. -/
theorem bitAt_patch_first {words : Array UInt64} {w : Width} {i : Nat} {value : UInt64}
    (hroom : start w i + w.bits ≤ 64 * words.size) (hfits : w.Fits value) (p : Nat) :
    bitAt (patch words (word w i) (w.mask <<< (offset w i).toUInt64)
      (value <<< (offset w i).toUInt64)) p =
      if p / 64 = word w i ∧ start w i ≤ p ∧ p < start w i + w.bits then
        bit value (p - start w i) else bitAt words p := by
  have hpos := w.one_le
  have hoff : offset w i < 64 := Nat.mod_lt _ (by decide)
  have hstart : start w i = 64 * word w i + offset w i := (Nat.div_add_mod _ _).symm
  have hp : p = 64 * (p / 64) + p % 64 := (Nat.div_add_mod _ _).symm
  have hmod : p % 64 < 64 := Nat.mod_lt _ (by decide)
  have hsize : word w i < words.size := by omega
  rw [bitAt_patch, bit_shiftLeft hoff, bit_shiftLeft hoff, bit_mask]
  by_cases hword : p / 64 = word w i
  · by_cases hafter : offset w i ≤ p % 64
    · have hsub : p % 64 - offset w i = p - start w i := by omega
      by_cases hin : p % 64 - offset w i < w.bits
      · have hfield : start w i ≤ p ∧ p < start w i + w.bits := by omega
        rw [hsub] at hin
        simp [hword, hsize, hafter, hmod, Nat.not_le.2 hin, hfield, hsub]
      · have hfield : ¬ (start w i ≤ p ∧ p < start w i + w.bits) := by omega
        simp [hword, hsize, hafter, hmod, hin, hfield, bit_of_fits hfits (Nat.not_lt.1 hin)]
    · have hfield : ¬ start w i ≤ p := by omega
      simp [hword, hsize, hafter, hfield]
  · simp [hword]

/-- Writing a field replaces its bits and no others. -/
theorem bitAt_write {words : Array UInt64} {w : Width} {i : Nat} {value : UInt64}
    (hroom : start w i + w.bits ≤ 64 * words.size) (hfits : w.Fits value) (p : Nat) :
    bitAt (write words w i value) p =
      if start w i ≤ p ∧ p < start w i + w.bits then bit value (p - start w i)
      else bitAt words p := by
  have hle := w.le_word
  have hoff : offset w i < 64 := Nat.mod_lt _ (by decide)
  have hstart : start w i = 64 * word w i + offset w i := (Nat.div_add_mod _ _).symm
  have hp : p = 64 * (p / 64) + p % 64 := (Nat.div_add_mod _ _).symm
  have hmod : p % 64 < 64 := Nat.mod_lt _ (by decide)
  have hfirst := bitAt_patch_first hroom hfits p
  unfold write
  split
  · -- the field goes on in the next word
    next hspill =>
    have hspill : 64 < offset w i + w.bits := hspill
    have hnext : word w i + 1 < words.size := by omega
    rw [bitAt_patch, hfirst, size_patch, bit_shiftRight (by omega), bit_shiftRight (by omega),
      bit_mask]
    by_cases hword : p / 64 = word w i + 1
    · have hsub : 64 - offset w i + p % 64 = p - start w i := by omega
      by_cases hin : p - start w i < w.bits
      · have hfield : start w i ≤ p ∧ p < start w i + w.bits := by omega
        simp [hword, hnext, hsub, hin, hfield]
      · have hfield : ¬ (start w i ≤ p ∧ p < start w i + w.bits) := by omega
        simp [hword, hnext, hsub, hin, hfield, bit_of_fits hfits (Nat.not_lt.1 hin)]
    · by_cases hfield : start w i ≤ p ∧ p < start w i + w.bits
      · have hstartWord : p / 64 = word w i := by omega
        simp [hstartWord, hfield]
      · simp [hword, hfield]
  · -- the field ends in the word in which it starts
    next hspill =>
    have hspill : ¬ 64 < offset w i + w.bits := hspill
    rw [hfirst]
    by_cases hfield : start w i ≤ p ∧ p < start w i + w.bits
    · have hstartWord : p / 64 = word w i := by omega
      simp [hstartWord, hfield]
    · simp [hfield]

end Field

end TextIndex
