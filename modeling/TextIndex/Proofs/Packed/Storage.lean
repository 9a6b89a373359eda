import TextIndex.Proofs.Packed.Program

/-!
# Room for the elements

The words that making or resizing a vector leaves have room for its elements exactly when the 64-bit counter
measures them (`resizing_stores`). Otherwise a checked counter ends the program. With one that wraps a vector
is returned of which an element lies outside the words, unless there are as many words as the counter has
bits for.

Nothing is assumed of the vector that is resized, so this holds of one too that has been through an overflow
before.
-/

set_option autoImplicit false

namespace TextIndex

namespace Width

/-- The words for elements that the counter does not measure are too few, even where what is left of the
product is the largest number that the counter has. -/
theorem le_wordsFor_iff (w : Width) (n : Nat) : n * w.bits ≤ 64 * w.wordsFor n ↔ w.Measures n := by
  refine ⟨fun hroom => ?_, w.mul_bits_le_wordsFor⟩
  unfold wordsFor at hroom
  unfold Measures
  simp only [UInt64.size] at hroom ⊢
  generalize n * w.bits = bits at hroom
  omega

end Width

namespace Field

variable {w : Width} {n : Nat}

/-- Among elements that the counter does not measure is one that ends where the counter does, or behind. -/
theorem exists_at_end (h : ¬ w.Measures n) : ∃ i, i < n ∧ UInt64.size ≤ start w i + w.bits := by
  have hlong : UInt64.size ≤ n * w.bits := Nat.not_lt.1 h
  have hbefore : (UInt64.size - 1) / w.bits * w.bits ≤ UInt64.size - 1 := Nat.div_mul_le_self ..
  have hend : UInt64.size - 1 < (UInt64.size - 1) / w.bits * w.bits + w.bits :=
    Nat.lt_div_mul_add w.one_le
  have hpos : 0 < UInt64.size := by decide
  generalize (UInt64.size - 1) / w.bits = i at hbefore hend
  have hmeasures : w.Measures i := Nat.lt_of_le_of_lt hbefore (Nat.sub_lt hpos Nat.one_pos)
  refine ⟨i, Nat.lt_of_mul_lt_mul_right (a := w.bits) (by omega), ?_⟩
  rw [start_eq hmeasures]
  omega

end Field

namespace Counter

/-- A field that ends behind the words is missed with a counter that wraps. -/
theorem lookUp_outside {size i : Nat} {w : Width}
    (houtside : 64 * size < Field.start w i + w.bits) :
    ∃ place, Counter.wrapping.lookUp size w i = .error (.missingWord size place) := by
  have hbits : Counter.wrapping.bits w i = .ok (i * w.bits % UInt64.size) :=
    bits_eq_ok_iff.2 ⟨by rintro ⟨⟩, rfl⟩
  unfold lookUp
  rw [hbits]
  cases hmissing : Field.missing? size w i with
  | none => exact absurd (Field.missing?_eq_none_iff.1 hmissing) (Nat.not_le.2 houtside)
  | some place => exact ⟨place, rfl⟩

end Counter

namespace PackedVector

/-- What it comes to in a program to ask for `length` elements of width `w`, where `value` fills those that
are new. -/
structure Stores (c : Counter) (w : Width) (length : Nat) (value : UInt64)
    (outcome : Except Halt (Except VectorError PackedVector)) : Prop where
  /-- A vector is returned if the value fits and the counter measures the elements. -/
  returned : w.Fits value → length * w.bits < UInt64.size → ∃ u, outcome = .ok (.ok u)
  /-- The bits of the elements, as an exact number, are then no more than those of the words, and only
  then. -/
  room : ∀ u, outcome = .ok (.ok u) → u.length = length ∧ u.width = w ∧
    (length * w.bits ≤ 64 * u.buffer.size ↔ length * w.bits < UInt64.size)
  /-- Every element is then found. -/
  inside : ∀ u, outcome = .ok (.ok u) → length * w.bits < UInt64.size →
    ∀ i, i < length → ∃ x, u.fetch c i = .ok (some x)
  /-- A checked counter ends the program over elements that it does not measure. -/
  ended : c = .checked → w.Fits value → UInt64.size ≤ length * w.bits → outcome = .error .overflow
  /-- Where one that wraps does not, an element is missed, unless there are as many words as the counter has
  bits for. -/
  missed : ∀ u, outcome = .ok (.ok u) → UInt64.size ≤ length * w.bits →
    64 * u.buffer.size < UInt64.size →
      ∃ i place, i < length ∧ u.fetch c i = .error (.missingWord u.buffer.size place)

/-- Resizing, whatever the vector has gone through. -/
theorem stores_resize (c : Counter) (v : PackedVector) (length : Nat) (value : UInt64) :
    Stores c v.width length value ((Change.resize length value).run c v) := by
  have hshape : ∀ u, (Change.resize length value).run c v = .ok (.ok u) →
      u.length = length ∧ u.width = v.width ∧ u.buffer.size = v.width.wordsFor length :=
    fun u h => shape_resize (run_eq_ok_iff.1 h).2.symm
  have hended : c = .checked → v.width.Fits value → UInt64.size ≤ length * v.width.bits →
      (Change.resize length value).run c v = .error .overflow := by
    rintro rfl hfits hlong
    have hwork : (Change.resize length value).work .checked v = .error .overflow := by
      dsimp only [Change.work]
      rw [if_pos hfits, Counter.wordsFor_of_not_measures (Nat.not_lt.2 hlong)]
      rfl
    unfold Change.run
    rw [hwork]
    rfl
  refine ⟨fun hfits hm => ?_, fun u h => ?_, fun u h hm i hi => ?_, hended, fun u h hlong hfew => ?_⟩
  · obtain ⟨u, hu, -⟩ := resize_of_fits v length hfits
    exact ⟨u, (run_of_work (work_resize c v hm value)).trans (congrArg _ hu)⟩
  · obtain ⟨hlength, hwidth, hsize⟩ := hshape u h
    rw [hsize]
    exact ⟨hlength, hwidth, v.width.le_wordsFor_iff length⟩
  · obtain ⟨hlength, hwidth, hsize⟩ := hshape u h
    unfold fetch
    rw [if_pos (hlength ▸ hi), hsize, hwidth, c.lookUp_of_lt hm (Nat.le_refl _) hi]
    exact ⟨_, rfl⟩
  · obtain ⟨hlength, hwidth, -⟩ := hshape u h
    -- a vector is returned, so the counter is one that wraps
    obtain rfl : c = .wrapping := by
      cases c with
      | wrapping => rfl
      | checked => exact absurd (measures_of_resize h) (Nat.not_lt.2 hlong)
    obtain ⟨i, hi, hend⟩ := Field.exists_at_end (w := v.width) (Nat.not_lt.2 hlong)
    obtain ⟨place, hplace⟩ := Counter.lookUp_outside (Nat.lt_of_lt_of_le hfew hend)
    refine ⟨i, place, hi, ?_⟩
    unfold fetch
    rw [if_pos (hlength ▸ hi), hwidth, hplace]
    rfl

/-- The length of a vector that is made or resized never outruns its storage, unless the counter wraps: a
checked counter ends the program first. Whichever counter there is, the words have room for the elements
exactly if it measures them. Nothing is assumed of the vector that is resized. -/
theorem resizing_stores (c : Counter) (length : Nat) (value : UInt64) :
    (∀ w : Width, Stores c w length value ((Source.replicate w.bits length value).run c)) ∧
      ∀ v : PackedVector, Stores c v.width length value ((Change.resize length value).run c v) := by
  refine ⟨fun w => ?_, fun v => stores_resize c v length value⟩
  have hlegal : Width.ofNat? w.bits = .ok w := Width.ofNat?_eq_ok_iff.2 rfl
  dsimp only [Source.run]
  rw [hlegal]
  exact stores_resize c (empty w) length value

/-- A counter that wraps comes out at zero for `2 ^ 60` elements of 64 bits. They are granted without a word
to put them in, and the first of them is missed. A checked counter ends the program. -/
theorem storage_falls_short :
    let source : Source := .replicate 64 (2 ^ 60) 0
    (∃ v : PackedVector, source.run .wrapping = .ok (.ok v) ∧ v.length = 2 ^ 60 ∧ v.buffer.size = 0 ∧
      ¬ v.length * v.width.bits ≤ 64 * v.buffer.size ∧
      v.fetch .wrapping 0 = .error (.missingWord 0 0)) ∧
      source.run .checked = .error .overflow :=
  ⟨⟨_, rfl, by decide +kernel⟩, rfl⟩

end PackedVector

end TextIndex
