import TextIndex.Proofs.Packed.Refinement

/-!
# Re-packing in place loses nothing and wastes nothing

Changing the width and compressing overwrite the words that they read. In every vector that operations
lead to, both keep the list of elements, leave exactly the words that the elements need, and clear what
lies behind the last one (`repacking_lossless`). A new width is refused for the elements alone: whether
the vector has been wider or narrower before does not matter. Compression finds the least width of all
that hold the elements, so that it never needs more words than there were, and gives the spare ones
back.

The one step in which the 64-bit storage counter can be passed is a widening, and only there is it
mentioned.
-/

set_option autoImplicit false

namespace TextIndex.PackedVector

/-! ## When a width is refused -/

/-- A number of bits at which `setWidth` is refused: it is not a width, or an element needs more. -/
def Unfit (v : PackedVector) (bits : Nat) : Prop :=
  ¬ (1 ≤ bits ∧ bits ≤ 64) ∨ ∃ x ∈ v.toList, 2 ^ bits ≤ x.toNat

instance (v : PackedVector) (bits : Nat) : Decidable (v.Unfit bits) :=
  inferInstanceAs (Decidable (¬ (1 ≤ bits ∧ bits ≤ 64) ∨ ∃ x ∈ v.toList, 2 ^ bits ≤ x.toNat))

/-- A width is fit for a vector exactly if every element fits into it. -/
theorem not_unfit_width {v : PackedVector} {w : Width} :
    ¬ v.Unfit w.bits ↔ ∀ x ∈ v.toList, w.Fits x := by
  constructor
  · intro h x hx
    exact Nat.not_le.1 fun hle => h (Or.inr ⟨x, hx, hle⟩)
  · rintro h (hillegal | ⟨x, hx, hle⟩)
    · exact hillegal ⟨w.one_le, w.le_word⟩
    · exact Nat.not_le.2 (h x hx) hle

/-- What a request for another width comes to, by whether the elements fit. -/
theorem apply_setWidth (v : PackedVector) (bits : Nat) :
    (v.Unfit bits ∧ ∃ e, (Change.setWidth bits).apply v = .error e) ∨
    (∃ w : Width, w.bits = bits ∧ (∀ x ∈ v.toList, w.Fits x) ∧
      (Change.setWidth bits).apply v = .ok (v.repack w)) := by
  cases hwidth : Width.ofNat? bits with
  | error e =>
    refine Or.inl ⟨Or.inl ?_, e, by simp [Change.apply, hwidth]; rfl⟩
    intro hlegal
    have hok : Width.ofNat? bits = .ok ⟨bits, hlegal.1, hlegal.2⟩ := dif_pos hlegal
    rw [hok] at hwidth
    cases hwidth
  | ok w =>
    obtain rfl := Width.ofNat?_eq_ok_iff.1 hwidth
    have happly : (Change.setWidth w.bits).apply v = v.setWidth w := by
      simp only [Change.apply, hwidth]
      rfl
    rw [happly]
    by_cases hfits : ∀ x ∈ v.toList, w.Fits x
    · exact Or.inr ⟨w, rfl, hfits, setWidth_of_fits hfits⟩
    · refine Or.inl ⟨?_, _, setWidth_of_not_fits hfits⟩
      exact not_not.1 fun h => hfits (not_unfit_width.1 h)

/-! ## What compression leaves -/

/-- No width that holds the elements is narrower than the one that compression finds. -/
theorem bits_bitCompress_le {v : PackedVector} {w : Width} (h : ∀ x ∈ v.toList, w.Fits x) :
    v.bitCompress.width.bits ≤ w.bits := by
  have hwidth : v.bitCompress.width = .least v.maxValue := (v.shape_repack _).2
  rw [hwidth]
  exact bits_least_le (fits_maxValue h)

/-- The largest of no elements, or of zeros, is zero. -/
theorem maxValue_eq_zero {v : PackedVector} (h : ∀ x ∈ v.toList, x = 0) : v.maxValue = 0 := by
  cases v.maxValue_eq_zero_or_mem with
  | inl hzero => exact hzero
  | inr hmem => exact h _ hmem

/-- Compressing reserves the words of the elements and no others. -/
theorem heapBytes_bitCompress {v : PackedVector} (h : v.bitCompress.Tidy) :
    v.bitCompress.heapBytes = 8 * ((v.length * v.bitCompress.width.bits + 63) / 64) := by
  have hlength : v.bitCompress.length = v.length := (v.shape_repack _).1
  rw [← hlength, ← h.size_eq]
  rfl

/-- A tidy vector has room for its elements at any narrower width. -/
theorem Tidy.words_le_capacity {v : PackedVector} (hv : v.Tidy) {bits : Nat}
    (hle : bits ≤ v.width.bits) : (v.length * bits + 63) / 64 ≤ v.buffer.capacity := by
  calc (v.length * bits + 63) / 64
      ≤ (v.length * v.width.bits + 63) / 64 :=
        Nat.div_le_div_right (Nat.add_le_add_right (Nat.mul_le_mul_left _ hle) 63)
    _ = v.buffer.words.size := hv.size_eq.symm
    _ ≤ v.buffer.capacity := v.buffer.size_le

/-! ## Every vector -/

/-- What re-packing in place does to a vector. -/
structure RepacksLosslessly (v : PackedVector) : Prop where
  refused_iff : ∀ bits, (∃ e, (Change.setWidth bits).apply v = .error e) ↔ v.Unfit bits
  /-- A refusal leaves words, length, width and reservation as they are. -/
  refused : ∀ bits, v.Unfit bits → (Change.setWidth bits).after v = v
  /-- Otherwise the width is the one asked for. If the vector is widened, its storage must still be
  measured by the counter. -/
  accepted : ∀ bits, ¬ v.Unfit bits → (v.width.bits < bits → v.length * bits < UInt64.size) →
    ∃ u, (Change.setWidth bits).apply v = .ok u ∧
      u.width.bits = bits ∧ u.toList = v.toList ∧ u.Tidy
  compressed_toList : v.bitCompress.toList = v.toList
  compressed_width : v.bitCompress.width = .least v.maxValue
  compressed_least : ∀ w : Width, (∀ x ∈ v.toList, w.Fits x) → v.bitCompress.width.bits ≤ w.bits
  compressed_zero : (∀ x ∈ v.toList, x = 0) → v.bitCompress.width.bits = 1
  compressed_tidy : v.bitCompress.Tidy
  compressed_heapBytes :
    v.bitCompress.heapBytes = 8 * ((v.length * v.bitCompress.width.bits + 63) / 64)
  compressed_le : v.bitCompress.heapBytes ≤ v.heapBytes

/-- Whatever the vector has gone through, and at all pairs of widths. -/
theorem repacking_lossless (v : PackedVector) (hv : Reachable v) : v.RepacksLosslessly := by
  have htidy := hv.tidy
  have hcompressed := repacked_bitCompress htidy.housed hv.measured
  have hheap := heapBytes_bitCompress (hcompressed.tidy htidy)
  refine
    { refused_iff := ?_, refused := ?_, accepted := ?_
      compressed_toList := hcompressed.toList_eq
      compressed_width := hcompressed.width_eq
      compressed_least := fun w h => bits_bitCompress_le h
      compressed_zero := ?_
      compressed_tidy := hcompressed.tidy htidy
      compressed_heapBytes := hheap
      compressed_le := ?_ }
  · intro bits
    obtain ⟨hunfit, herror⟩ | ⟨w, rfl, hfits, hok⟩ := v.apply_setWidth bits
    · exact iff_of_true herror hunfit
    · refine iff_of_false ?_ (not_unfit_width.2 hfits)
      rintro ⟨e, herror⟩
      rw [hok] at herror
      cases herror
  · intro bits hunfit
    obtain ⟨-, e, herror⟩ | ⟨w, rfl, hfits, -⟩ := v.apply_setWidth bits
    · simp only [Change.after, herror]
    · exact absurd hunfit (not_unfit_width.2 hfits)
  · intro bits hfit hroom
    obtain ⟨hunfit, -⟩ | ⟨w, rfl, hfits, hok⟩ := v.apply_setWidth bits
    · exact absurd hunfit hfit
    · have hm : w.Measures v.length := by
        by_cases hwider : v.width.bits < w.bits
        · exact hroom hwider
        · exact Width.Measures.narrow hv.measured (Nat.not_lt.1 hwider)
      have hpacked := repacked_repack htidy.housed hv.measured hm fun _ => fits_maxValue hfits
      exact ⟨_, hok, congrArg Width.bits hpacked.width_eq, hpacked.toList_eq, hpacked.tidy htidy⟩
  · intro hzero
    rw [hcompressed.width_eq, maxValue_eq_zero hzero]
    rfl
  · rw [hheap]
    have hle : v.bitCompress.width.bits ≤ v.width.bits :=
      bits_bitCompress_le fun _ hx => fits_of_mem hx
    exact Nat.mul_le_mul_left 8 (htidy.words_le_capacity hle)

/-- Three elements of 41 bits, the second across the boundary of two words. They need 33 bits: 32 are
refused, 33 and 64 are not. -/
theorem repacking_lossless_across_words :
    ∃ v : PackedVector, Reachable v ∧ v.RepacksLosslessly ∧ v.toList = [5, 0x100000000, 7] ∧
      v.Unfit 32 ∧ ¬ v.Unfit 33 ∧ ¬ v.Unfit 64 ∧ v.bitCompress.width.bits = 33 := by
  have hmake : (Source.ofList 41 [5, 0x100000000, 7]).make = .ok ⟨_, _, _⟩ := rfl
  have hmade := Reachable.make hmake (by decide)
  exact ⟨_, hmade, repacking_lossless _ hmade, by decide +kernel⟩

end TextIndex.PackedVector
