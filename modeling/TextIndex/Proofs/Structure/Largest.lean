import TextIndex.Proofs.Structure.Capacity

/-!
# The largest entry

What is built compressed gets its width before it is built, from a number that is known to be its
largest entry. `maxValue_positions`, `maxValue_lcp` and `maxValue_bwt` say that it is.

* Every array of positions or ranks has the last position of the text in it.
* The common prefixes by rank and by position are the same numbers in another order.
* The transform is the text in another order, as the byte before a suffix is any byte of the text for
  one of the suffixes.
-/

set_option autoImplicit false

namespace TextIndex

/-! ## The width that was asked for -/

namespace PackedVector

variable {v v' : PackedVector} {w : Width}

/-- Replacing elements one after the other keeps the width. -/
theorem width_setEach {α : Type} {place : α → Nat} {value : α → UInt64} {l : List α}
    (h : l.foldlM (fun v p => v.set (place p) (value p)) v = .ok v') : v'.width = v.width := by
  apply foldlM_ok (fun _ u => u.width = v.width) rfl _ h
  intro before p after u u' _ hu hset
  exact (shape_set hset).2.1.trans hu

/-- A vector of given values has the width asked for. -/
theorem width_ofList? {values : List UInt64} (h : ofList? w values = .ok v) : v.width = w :=
  (shape_ofList? h).2

/-- A vector of zeros has the width asked for. -/
theorem width_zeros {n : Nat} (h : replicate? w n 0 = .ok v) : v.width = w := by
  obtain ⟨u, hu, -, hwidth⟩ := exists_zeros w n
  rw [hu] at h
  injection h with h
  rw [← h, hwidth]

/-- Filling a vector of zeros keeps the width of the zeros. -/
theorem width_of_zeros {α : Type} {place : α → Nat} {value : α → UInt64} {l : List α} {n : Nat}
    (h : (replicate? w n 0 >>= l.foldlM fun v p => v.set (place p) (value p)) = .ok v) :
    v.width = w := by
  obtain ⟨blank, hblank, h⟩ := bind_eq_ok.1 h
  exact (width_setEach h).trans (width_zeros hblank)

end PackedVector

section Widths

variable {text : Array UInt8} {v v' : PackedVector} {w : Width}

/-- The suffix array and its inverse have the width asked for. -/
theorem width_build {pair : SuffixArray.Pair} (h : SuffixArray.build text w = .ok pair) :
    pair.positions.width = w ∧ pair.ranks.width = w := by
  obtain ⟨positions, hpositions, h⟩ := bind_eq_ok.1 h
  obtain ⟨ranks, hranks, h⟩ := bind_eq_ok.1 h
  injection h with h
  subst h
  exact ⟨PackedVector.width_ofList? hpositions, PackedVector.width_ofList? hranks⟩

/-- The inverse has the width asked for. -/
theorem width_invert (h : SuffixArray.invert v w = .ok v') : v'.width = w :=
  PackedVector.width_of_zeros h

/-- The phi array has the width asked for. -/
theorem width_phi (h : CommonPrefix.phi v w = .ok v') : v'.width = w :=
  PackedVector.width_of_zeros h

/-- The prefix array has the width asked for. -/
theorem width_lcp {plcp : PackedVector} (h : CommonPrefix.lcp v plcp w = .ok v') : v'.width = w :=
  PackedVector.width_of_zeros h

/-- What replacing an element keeps, making the permuted prefix array out of the phi array keeps. -/
theorem plcp_keeps {P : PackedVector → Prop}
    (hP : ∀ u i x u', P u → u.set i x = .ok u' → P u') (hv : P v)
    (h : CommonPrefix.plcp text v = .ok v') : P v' := by
  obtain ⟨⟨u, len⟩, hdone, h⟩ := bind_eq_ok.1 h
  have hu : P u := by
    refine foldlM_ok (fun _ state => P state.1) hv ?_ hdone
    intro before i after state state' _ hstate hstep
    obtain ⟨w, hset, hend⟩ := bind_eq_ok.1 hstep
    injection hend with hend
    subst hend
    exact hP _ _ _ _ hstate hset
  split at h
  · injection h with h
    rwa [← h]
  · exact hP _ _ _ _ hu h

/-- The permuted prefix array keeps the width of the phi array. -/
theorem width_plcp (h : CommonPrefix.plcp text v = .ok v') : v'.width = v.width :=
  plcp_keeps (P := fun u => u.width = v.width)
    (fun _ _ _ _ hu hset => (PackedVector.shape_set hset).2.1.trans hu) rfl h

/-- The permuted prefix array keeps the length of the phi array. -/
theorem length_plcp (h : CommonPrefix.plcp text v = .ok v') : v'.length = v.length :=
  plcp_keeps (P := fun u => u.length = v.length)
    (fun _ _ _ _ hu hset => (PackedVector.shape_set hset).1.trans hu) rfl h

/-- The transform has the width asked for. -/
theorem width_transform (h : Transform.build text v w = .ok v') : v'.width = w :=
  PackedVector.width_ofList? h

end Widths

/-! ## Bounds of the largest element -/

namespace PackedVector

variable {v u : PackedVector}

/-- A bound of all elements bounds the largest. -/
theorem maxValue_le {n : Nat} (h : ∀ x ∈ v.toList, x.toNat ≤ n) : v.maxValue.toNat ≤ n := by
  rcases v.maxValue_eq_zero_or_mem with hzero | hmem
  · rw [hzero]
    exact Nat.zero_le n
  · exact h _ hmem

/-- A bound that is reached is the largest element. -/
theorem toNat_maxValue_eq {n : Nat} (hle : ∀ x ∈ v.toList, x.toNat ≤ n)
    (hmem : ∃ x ∈ v.toList, x.toNat = n) : v.maxValue.toNat = n := by
  obtain ⟨x, hx, rfl⟩ := hmem
  exact Nat.le_antisymm (maxValue_le hle) (v.le_maxValue hx)

/-- The same elements, in whatever order, have the same largest one. -/
theorem maxValue_congr (h : ∀ x, x ∈ v.toList ↔ x ∈ u.toList) : v.maxValue = u.maxValue := by
  apply UInt64.toNat_inj.1
  apply Nat.le_antisymm
  · exact maxValue_le fun x hx => u.le_maxValue ((h x).1 hx)
  · exact maxValue_le fun x hx => v.le_maxValue ((h x).2 hx)

/-- A compressed vector has the least width of its own largest element. -/
theorem width_bitCompress (hv : v.Housed) (hm : v.width.Measures v.length) :
    v.bitCompress.width = .least v.bitCompress.maxValue := by
  have hpacked := repacked_bitCompress hv hm
  rw [hpacked.width_eq]
  unfold maxValue
  rw [hpacked.toList_eq]

end PackedVector

/-! ## The largest entry of each array -/

section Largest

variable {text sa : List Nat} {v u : PackedVector}

/-- The largest position is the last one of the text. -/
theorem maxValue_positions (hsa : Sorts text sa) (hend : EndsWithLeast text)
    (hn : text.length < UInt64.size) {k : Kind} (hk : k.holdsPositions = true)
    (hv : v.Holds text sa k) : v.maxValue = (text.length - 1).toUInt64 := by
  obtain ⟨r, hr, hlast⟩ := hsa.exists_last hend hk
  apply UInt64.toNat_inj.1
  rw [toNat_toUInt64_of_lt hn (by omega)]
  apply PackedVector.toNat_maxValue_eq
  · intro x hx
    have hlt := hv.lt_length hsa (by rintro rfl; cases hk) hx
    omega
  · obtain ⟨x, hx, hentry⟩ := hv.exists_element hr
    exact ⟨x, List.mem_of_getElem? hx, hentry.trans hlast⟩

/-- The prefix array has the entries of the permuted one, so the largest is the same. -/
theorem maxValue_lcp (hsa : Sorts text sa) (hv : v.Holds text sa .lcp) (hu : u.Holds text sa .plcp) :
    v.maxValue = u.maxValue := by
  apply PackedVector.maxValue_congr
  intro x
  rw [hv.mem_toList_iff hsa, hu.mem_toList_iff hsa]
  rfl

end Largest

/-- The transform has the bytes of the text, so the largest is the same. -/
theorem maxValue_bwt {text : Array UInt8} {sa : List Nat} {v : PackedVector}
    (hsa : Sorts (SuffixArray.codes text) sa) (hv : v.Holds (SuffixArray.codes text) sa .bwt) :
    v.maxValue = (text.foldl max 0).toUInt64 := by
  have hle : (0 : UInt8).toNat ≤ (text.toList.foldl max 0).toNat ∧
      ∀ b ∈ text.toList, b.toNat ≤ (text.toList.foldl max 0).toNat :=
    le_foldl_max (fun _ _ => UInt8.le_iff_toNat_le) text.toList 0
  have hmem : text.toList.foldl max 0 = 0 ∨ text.toList.foldl max 0 ∈ text.toList :=
    foldl_max_eq_or_mem text.toList 0
  rw [Array.foldl_toList] at hle hmem
  apply UInt64.toNat_inj.1
  rw [UInt8.toNat_toUInt64]
  apply Nat.le_antisymm
  · -- an entry is a member of the text, or zero
    apply PackedVector.maxValue_le
    intro x hx
    obtain ⟨r, -, hentry⟩ := (hv.mem_toList_iff hsa).1 hx
    rw [hentry]
    show (SuffixArray.codes text).getD _ 0 ≤ _
    generalize (if sa.getD r 0 = 0 then (SuffixArray.codes text).length - 1 else sa.getD r 0 - 1) = j
    rcases Nat.lt_or_ge j (SuffixArray.codes text).length with hj | hj
    · rw [List.getD_eq_getElem _ _ hj]
      obtain ⟨b, hb, heq⟩ := List.mem_map.1 (List.getElem_mem hj)
      rw [← heq]
      exact hle.2 b hb
    · rw [List.getD_eq_default _ _ hj]
      exact Nat.zero_le _
  · -- the largest byte is an entry
    rcases hmem with hzero | hmem
    · rw [hzero]
      exact Nat.zero_le _
    · obtain ⟨j, hj, hbyte⟩ := List.mem_iff_getElem.1 hmem
      have hj' : j < (SuffixArray.codes text).length := by simpa [SuffixArray.codes] using hj
      obtain ⟨r, hr, hmember⟩ := hsa.exists_memberBefore hj'
      obtain ⟨x, hx, hentry⟩ := hv.exists_element hr
      have heq : (text.foldl max 0).toNat = x.toNat := by
        rw [hentry]
        show _ = memberBefore _ _
        rw [hmember, List.getD_eq_getElem _ _ hj']
        simp [SuffixArray.codes, ← hbyte]
      rw [heq]
      exact v.le_maxValue (List.mem_of_getElem? hx)

end TextIndex
