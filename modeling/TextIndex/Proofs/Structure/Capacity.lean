import TextIndex.Proofs.Packed.Repack
import TextIndex.Proofs.Structure.PrefixLengths

/-!
# When the arrays can be built

Packing is refused only where a value does not fit its width. The suffix array begins with the last
position, that of the sentinel, so a width that does not hold this position is refused at once. With a
width that does, every array can be built, because positions, ranks and lengths are smaller than the
number of suffixes.

The permuted prefix array has no width of its own. It takes over that of the phi array, and this one
holds the last position too: the suffix of the sentinel stands before some other one, if only before
itself.
-/

set_option autoImplicit false

namespace TextIndex

open PackedVector (Housed values)

variable {text sa : List Nat} {v : PackedVector} {w : Width}

/-! ## Values that fit -/

/-- A width that is wide enough for the last position holds them all. -/
theorem fits_position {n i : Nat} (hn : n < UInt64.size) (hw : n ≤ w.bound) (hi : i < n) :
    w.Fits i.toUInt64 := by
  unfold Width.Fits
  rw [toNat_toUInt64_of_lt hn hi]
  omega

/-- Zero fits into every width. -/
theorem fits_zero (w : Width) : w.Fits 0 := Nat.two_pow_pos w.bits

/-- Up to 58 bits, a width measures as many elements as it has positions for. -/
theorem measures_of_le_bound {n : Nat} (hw : n ≤ w.bound) (hm : 58 < w.bits → w.Measures n) :
    w.Measures n := by
  rcases Nat.lt_or_ge 58 w.bits with hwide | hbits
  · exact hm hwide
  · have hbound : n ≤ 2 ^ 58 := Nat.le_trans hw (Nat.pow_le_pow_right Nat.two_pos hbits)
    calc n * w.bits ≤ 2 ^ 58 * 58 := Nat.mul_le_mul hbound hbits
      _ < UInt64.size := by decide

/-- The elements of every array but the transform are smaller than the number of suffixes. -/
theorem PackedVector.Holds.lt_length (hsa : Sorts text sa) {k : Kind} (hk : k ≠ .bwt)
    (h : v.Holds text sa k) {x : UInt64} (hx : x ∈ v.toList) : x.toNat < text.length := by
  obtain ⟨r, hr, hentry⟩ := (h.mem_toList_iff hsa).1 hx
  rw [hentry]
  exact hsa.entry_lt hk hr

/-- Where there is room for the text every entry fits, other than those of the transform. -/
theorem PackedVector.Holds.fits (hsa : Sorts text sa) {k : Kind} (hk : k ≠ .bwt)
    (h : v.Holds text sa k) (hw : text.length ≤ w.bound) {x : UInt64} (hx : x ∈ v.toList) :
    w.Fits x := Nat.lt_of_lt_of_le (h.lt_length hsa hk hx) hw

/-- What is read from a vector fits where its elements do. -/
theorem fits_getD (hfits : ∀ x ∈ v.toList, w.Fits x) (i : Nat) : w.Fits ((v.get? i).getD 0) := by
  rw [v.get?_eq]
  cases hx : v.toList[i]? with
  | none => exact fits_zero w
  | some x => exact hfits x (List.mem_of_getElem? hx)

/-- A vector of zeros is not refused. -/
theorem exists_zeros (w : Width) (n : Nat) :
    ∃ v, PackedVector.replicate? w n 0 = .ok v ∧ v.length = n ∧ v.width = w :=
  PackedVector.resize_of_fits (.empty w) n (fits_zero w)

/-! ## The suffix array and its inverse -/

/-- Positions are packed if there is room for the text. -/
theorem exists_pack {n : Nat} {positions : List Nat} (hn : n < UInt64.size) (hw : n ≤ w.bound)
    (hlt : ∀ i ∈ positions, i < n) : ∃ v, SuffixArray.pack w positions = .ok v := by
  have hnone : (positions.map Nat.toUInt64).find? (fun x => ¬ w.Fits x) = none := by
    rw [List.find?_eq_none]
    intro x hx
    obtain ⟨i, hi, rfl⟩ := List.mem_map.1 hx
    simpa using fits_position hn hw (hlt i hi)
  obtain ⟨v, hv, -⟩ := PackedVector.ofList?_of_fits hnone
  exact ⟨v, hv⟩

section Build

variable {text : Array UInt8}

/-- The suffix array and its inverse are built if there is room for the text. -/
theorem exists_build (hn : text.size < UInt64.size) (hpos : 0 < text.size) (hw : text.size ≤ w.bound) :
    ∃ pair, SuffixArray.build text w = .ok pair := by
  have hcorrect := SuffixArray.correct_rankSuffixes hpos
  have hcodes := SuffixArray.length_codes text
  obtain ⟨positions, hpositions⟩ := exists_pack hn hw fun i hi => by
    rw [← hcodes]
    exact hcorrect.sorts.mem_iff.1 hi
  obtain ⟨ranks, hranks⟩ := exists_pack hn hw fun i hi => by
    rw [← hcodes]
    exact hcorrect.rank_lt hi
  refine ⟨⟨positions, ranks⟩, ?_⟩
  unfold SuffixArray.build
  simp only [hpositions, hranks]
  rfl

/-- The first position of the suffix array is the last of the text, and it is the one that is
refused. -/
theorem build_refused (hend : EndsWithLeast (SuffixArray.codes text)) (hn : text.size < UInt64.size)
    (hw : w.bound < text.size) :
    SuffixArray.build text w = .error (.valueTooWide (text.size - 1).toUInt64 w.bits) := by
  have hpos : 0 < text.size := Nat.lt_of_le_of_lt (Nat.zero_le _) hw
  have hcodes := SuffixArray.length_codes text
  have hsorts := (SuffixArray.correct_rankSuffixes hpos).sorts
  have hfirst := hsorts.getD_zero hend
  have hlength := hsorts.length_eq
  have hpack : SuffixArray.pack w (SuffixArray.rankSuffixes text).positions =
      .error (.valueTooWide (text.size - 1).toUInt64 w.bits) := by
    unfold SuffixArray.pack
    cases hpositions : (SuffixArray.rankSuffixes text).positions with
    | nil =>
      rw [hpositions, hcodes, List.length_nil] at hlength
      omega
    | cons i rest =>
      rw [hpositions, List.getD_cons_zero, hcodes] at hfirst
      have hwide : ¬ w.Fits (text.size - 1).toUInt64 := by
        unfold Width.Fits
        rw [toNat_toUInt64_of_lt hn (by omega)]
        omega
      rw [hfirst]
      apply PackedVector.ofList?_of_not_fits
      rw [List.map_cons, List.find?_cons_of_pos]
      exact decide_eq_true hwide
  unfold SuffixArray.build
  simp only [hpack]
  rfl

end Build

/-- The inverse is built if there is room for the text. -/
theorem exists_invert (hn : text.length < UInt64.size) (hsa : Sorts text sa) (hw : text.length ≤ w.bound)
    (hv : v.Holds text sa .suffixArray) : ∃ v', SuffixArray.invert v w = .ok v' := by
  obtain ⟨blank, hblank, hlength, hwidth⟩ := exists_zeros w v.length
  unfold SuffixArray.invert
  rw [hblank]
  apply PackedVector.setEach_of_fits
  intro p hp
  obtain ⟨x, r⟩ := p
  have hx := List.mk_mem_zipIdx_iff_getElem?.1 hp
  rw [hlength, hwidth, hv.length_eq]
  have hr : r < text.length := by
    rw [← hv.length_eq, ← v.length_toList]
    exact (List.getElem?_eq_some_iff.1 hx).1
  exact ⟨hv.lt_length hsa (by simp) (List.mem_of_getElem? hx), fits_position hn hw hr⟩

/-! ## The phi array and the common prefixes -/

/-- The phi array is built if there is room for the text. -/
theorem exists_phi (hsa : Sorts text sa) (hw : text.length ≤ w.bound)
    (hv : v.Holds text sa .suffixArray) : ∃ v', CommonPrefix.phi v w = .ok v' := by
  obtain ⟨blank, hblank, hlength, hwidth⟩ := exists_zeros w v.length
  have hfits : ∀ x ∈ v.toList, w.Fits x := fun x hx => hv.fits hsa (by simp) hw hx
  unfold CommonPrefix.phi
  rw [hblank]
  apply PackedVector.setEach_of_fits
  intro p hp
  obtain ⟨hposition, hbefore⟩ := List.of_mem_zip hp
  rw [hlength, hwidth, hv.length_eq]
  refine ⟨hv.lt_length hsa (by simp) hposition, ?_⟩
  rcases List.mem_cons.1 hbefore with hlast | hbefore
  · rw [hlast]
    exact fits_getD hfits _
  · exact hfits _ hbefore

/-- The prefix array is built if the entries of the permuted one fit. -/
theorem exists_lcp {plcp : PackedVector} (hfits : ∀ x ∈ plcp.toList, w.Fits x) :
    ∃ v', CommonPrefix.lcp v plcp w = .ok v' := by
  obtain ⟨blank, hblank, hlength, hwidth⟩ := exists_zeros w v.length
  unfold CommonPrefix.lcp
  rw [hblank]
  apply PackedVector.setEach_of_fits
  intro p hp
  obtain ⟨x, r⟩ := p
  have hx := List.mk_mem_zipIdx_iff_getElem?.1 (List.mem_of_mem_drop hp)
  rw [hlength, hwidth, ← v.length_toList]
  exact ⟨(List.getElem?_eq_some_iff.1 hx).1, fits_getD hfits _⟩

section InPlace

variable {text : Array UInt8}

/-- The phi array is wide enough for the last position. -/
theorem le_bound_of_holds_phi (hend : EndsWithLeast (SuffixArray.codes text))
    (hsa : Sorts (SuffixArray.codes text) sa) (hv : v.Holds (SuffixArray.codes text) sa .phi) :
    text.size ≤ v.width.bound := by
  have hcodes := SuffixArray.length_codes text
  obtain ⟨r, hr, hlast⟩ := hsa.exists_last hend (k := .phi) rfl
  obtain ⟨x, hx, hentry⟩ := hv.exists_element hr
  have hfits : v.width.Fits x := PackedVector.fits_of_mem (List.mem_of_getElem? hx)
  have hpos : 0 < text.size := by rw [← hcodes]; omega
  unfold Width.Fits at hfits
  omega

/-- Replacing one position is not refused, and the width stays. -/
theorem Progress.exists_step (hend : EndsWithLeast (SuffixArray.codes text))
    (hsa : Sorts (SuffixArray.codes text) sa) {i : Nat}
    (hi : i < text.size - 1) {state : PackedVector × Nat}
    (h : Progress (SuffixArray.codes text) sa i state) (hroom : text.size ≤ state.1.width.bound) :
    ∃ state', CommonPrefix.step text state i = .ok state' ∧ state'.1.width = state.1.width := by
  have hcodes := SuffixArray.length_codes text
  obtain ⟨r, x, -, -, -, hshort, hread, hscan⟩ := h.exists_scan hend hsa hi
  have hplace : i < state.1.length := by
    rw [← state.1.length_values, h.length_eq]
    omega
  have hfits : state.1.width.Fits (lcpAt (SuffixArray.codes text) sa r).toUInt64 :=
    fits_position (hcodes ▸ h.measures.lt_size) hroom hshort
  obtain ⟨u, hu, -, hwidth⟩ := PackedVector.set_of_fits hplace hfits
  rw [CommonPrefix.step_eq hread hscan (Nat.le_of_lt hshort), hu]
  exact ⟨_, rfl, hwidth⟩

/-- The permuted prefix array is always built in the place of the phi array. -/
theorem exists_plcp (hend : EndsWithLeast (SuffixArray.codes text))
    (hsa : Sorts (SuffixArray.codes text) sa) (hm : v.width.Measures text.size)
    (hv : v.Holds (SuffixArray.codes text) sa .phi) : ∃ v', CommonPrefix.plcp text v = .ok v' := by
  have hcodes := SuffixArray.length_codes text
  have hroom := le_bound_of_holds_phi hend hsa hv
  have hpos : 0 < text.size := hcodes ▸ hend.length_pos
  obtain ⟨done, hdone, hprogress, -⟩ := exists_foldlM (l := List.range (text.size - 1))
    (f := CommonPrefix.step text)
    (fun before state => Progress (SuffixArray.codes text) sa before.length state ∧
      state.1.width = v.width) ⟨progress_start hv (by rwa [hcodes]), rfl⟩ (by
      rintro before i after state hsplit ⟨hstate, hwidth⟩
      obtain ⟨hlength, hi⟩ := length_eq_of_range_eq hsplit
      rw [hlength] at hstate
      obtain ⟨state', hstep, hwidth'⟩ := hstate.exists_step hend hsa hi (hwidth ▸ hroom)
      refine ⟨state', hstep, ?_, hwidth'.trans hwidth⟩
      rw [List.length_append, List.length_singleton, hlength]
      exact (hstate.step hend hsa hi hstep).1)
  have hplace : text.size - 1 < done.1.length := by
    rw [← done.1.length_values, hprogress.length_eq]
    omega
  obtain ⟨v', hv', -⟩ := PackedVector.set_of_fits hplace (fits_zero _)
  refine ⟨v', ?_⟩
  unfold CommonPrefix.plcp
  rw [hdone, ← hv']
  exact if_neg (Nat.ne_of_gt hpos)

end InPlace

/-! ## The transform -/

/-- The transform is built if the bytes of the text fit. -/
theorem exists_transform {text : Array UInt8} (hfits : ∀ b ∈ text, w.Fits b.toUInt64) :
    ∃ v', Transform.build text v w = .ok v' := by
  have hgetD : ∀ i, w.Fits (text.getD i 0).toUInt64 := by
    intro i
    rw [Array.getD_eq_getD_getElem?]
    cases hb : text[i]? with
    | none => exact fits_zero w
    | some b => exact hfits b (Array.mem_of_getElem? hb)
  have hnone : (v.toList.map fun i => (Transform.byteBefore text i.toNat).toUInt64).find?
      (fun x => ¬ w.Fits x) = none := by
    rw [List.find?_eq_none]
    intro x hx
    obtain ⟨i, -, rfl⟩ := List.mem_map.1 hx
    unfold Transform.byteBefore
    split <;> simpa using hgetD _
  obtain ⟨v', hv', -⟩ := PackedVector.ofList?_of_fits hnone
  exact ⟨v', hv'⟩

end TextIndex
