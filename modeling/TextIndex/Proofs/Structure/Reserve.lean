import TextIndex.Proofs.Structure.Largest

/-!
# What the arrays reserve

An array is charged for the words that it reserves, and how many these are depends on the way in which it
has been made (`PackedVector.Reserves`).

* A vector of given numbers starts with room for all of them and never grows: it reserves the words that its
  elements need. So do a copy and a vector that has been brought to its least width.
* A vector of zeros grows out of one without any room, and growing reserves four words at least. Replacing
  elements afterwards changes nothing about that.
* The permuted prefix array is written over the phi array and takes over its reservation.
-/

set_option autoImplicit false

namespace TextIndex

/-! ## Words -/

/-- Extending reserves what making room does. -/
theorem Buffer.capacity_extendTo (b : Buffer) (n : Nat) :
    (b.extendTo n).capacity = b.capacityFor n := rfl

/-- More elements need no fewer words, … -/
theorem Width.wordsFor_mono {w : Width} {m n : Nat} (h : w.Measures n) (hmn : m ≤ n) :
    w.wordsFor m ≤ w.wordsFor n := by
  rw [wordsFor_eq h, wordsFor_eq (h.mono hmn)]
  have hbits : m * w.bits ≤ n * w.bits := Nat.mul_le_mul_right _ hmn
  omega

/-- … and neither do wider ones. -/
theorem Width.wordsFor_le {v w : Width} {n : Nat} (h : w.Measures n) (hle : v.bits ≤ w.bits) :
    v.wordsFor n ≤ w.wordsFor n := by
  rw [wordsFor_eq h, wordsFor_eq (h.narrow hle)]
  have hbits : n * v.bits ≤ n * w.bits := Nat.mul_le_mul_left _ hle
  omega

namespace PackedVector

variable {v v' : PackedVector} {w : Width} {n : Nat}

/-- A tidy vector that reserves `n` words. -/
structure Reserves (v : PackedVector) (n : Nat) : Prop where
  tidy : v.Tidy
  capacity_eq : v.buffer.capacity = n

/-- A tidy vector uses the words that its elements need. -/
theorem Tidy.size_eq_wordsFor (hv : v.Tidy) (hm : v.width.Measures v.length) :
    v.buffer.words.size = v.width.wordsFor v.length := by
  rw [hv.size_eq, Width.wordsFor_eq hm]

/-- A tidy vector reserves the words that its elements need. -/
theorem Tidy.wordsFor_le_capacity (hv : v.Tidy) (hm : v.width.Measures v.length) :
    v.width.wordsFor v.length ≤ v.buffer.capacity := by
  rw [← hv.size_eq_wordsFor hm]
  exact v.buffer.size_le

/-- Once nothing but the words in use is reserved, the elements tell how many these are. -/
theorem Tidy.reserves_shrinkToFit (hv : v.Tidy) (hm : v.width.Measures v.length) :
    v.shrinkToFit.Reserves (v.width.wordsFor v.length) where
  tidy := ⟨hv.size_eq, hv.tail⟩
  capacity_eq := hv.size_eq_wordsFor hm

/-- A compressed vector reserves what its elements need at their least width. -/
theorem reserves_bitCompress (hv : v.Tidy) (hm : v.width.Measures v.length) :
    v.bitCompress.Reserves (v.bitCompress.width.wordsFor v.length) := by
  have hle : (Width.least v.maxValue).bits ≤ v.width.bits :=
    bits_least_le (fits_maxValue fun _ hx => fits_of_mem hx)
  have htidy : (v.repack (.least v.maxValue)).Tidy :=
    (repacked_repack hv.housed hm (hm.narrow hle) fun _ => Width.fits_least v.maxValue).tidy hv
  obtain ⟨hlength, hwidth⟩ := v.shape_repack (.least v.maxValue)
  have hfit := htidy.reserves_shrinkToFit (by rw [hlength, hwidth]; exact hm.narrow hle)
  rwa [hlength] at hfit

/-! ## Making a vector -/

/-- Appending where there is room reserves nothing more. -/
theorem capacity_push {value : UInt64} (h : v.push value = .ok v')
    (hroom : v.width.wordsFor (v.length + 1) ≤ v.buffer.capacity) :
    v'.buffer.capacity = v.buffer.capacity := by
  obtain ⟨buffer, length, width⟩ := v
  obtain ⟨_, -, hend⟩ := bind_eq_ok.1 h
  injection hend with hend
  subst hend
  rw [capacity_writeAt, Buffer.capacity_extendTo]
  exact if_pos hroom

/-- Appending elements for which there is room reserves nothing. -/
theorem capacity_pushEach {values : List UInt64} :
    ∀ {v v' : PackedVector}, v.pushEach values = (v', none) →
      v.width.Measures (v.length + values.length) →
      v.width.wordsFor (v.length + values.length) ≤ v.buffer.capacity →
      v'.buffer.capacity = v.buffer.capacity := by
  induction values with
  | nil =>
    intro v v' h _ _
    cases h
    rfl
  | cons x rest ih =>
    intro v v' h hm hroom
    have hlonger : v.length + 1 + rest.length = v.length + (x :: rest).length := by
      rw [List.length_cons]
      omega
    unfold pushEach at h
    by_cases hfits : v.width.Fits x
    · obtain ⟨u, hu, hlength, hwidth⟩ := push_of_fits hfits
      rw [hu] at h
      have hcapacity : u.buffer.capacity = v.buffer.capacity :=
        capacity_push hu (Nat.le_trans (Width.wordsFor_mono hm (by omega)) hroom)
      rw [← hlonger, ← hlength, ← hwidth] at hm hroom
      rw [← hcapacity] at hroom ⊢
      exact ih h hm hroom
    · rw [push_of_not_fits hfits] at h
      cases h

/-- The vector of a list reserves the words that its elements need. -/
theorem reserves_ofList? {values : List UInt64} (hm : w.Measures values.length)
    (h : ofList? w values = .ok v) : v.Reserves (w.wordsFor values.length) := by
  refine ⟨(toList_ofList? hm h).1, ?_⟩
  unfold ofList? at h
  split at h
  · next u hu =>
    cases h
    have hlength : (reserving w values.length).length + values.length = values.length :=
      Nat.zero_add _
    rw [← hlength] at hm
    refine (capacity_pushEach hu hm ?_).trans rfl
    rw [hlength]
    exact Nat.le_refl _
  · cases h

/-- A vector of zeros reserves four words at least. -/
theorem reserves_zeros (hm : w.Measures n) (hn : 0 < n) (h : replicate? w n 0 = .ok v) :
    v.Reserves (max 4 (w.wordsFor n)) := by
  refine ⟨(toList_replicate? hm h).1, ?_⟩
  have hzeros : replicate? w n 0 = .ok { empty w with
      buffer := (Buffer.empty.resize (w.wordsFor n)), length := n } := by
    unfold replicate? resize
    rw [Width.check_of_fits (fits_zero (empty w).width)]
    show Except.ok (if n < 0 then _ else _) = _
    rw [if_neg (Nat.not_lt_zero n)]
    rfl
  rw [hzeros] at h
  injection h with h
  subst h
  -- there is an element, so there is a word to reserve
  have hwords : ¬ w.wordsFor n ≤ 0 := by
    have hbits := w.mul_bits_le_wordsFor hm
    have hpos : 0 < n * w.bits := Nat.mul_pos hn w.one_le
    omega
  show (Buffer.empty.resize (w.wordsFor n)).capacity = _
  have hgrown : Buffer.empty.resize (w.wordsFor n) = Buffer.empty.extendTo (w.wordsFor n) :=
    if_neg hwords
  rw [hgrown, Buffer.capacity_extendTo]
  unfold Buffer.capacityFor
  have hnone : Buffer.empty.capacity = 0 := rfl
  rw [hnone, if_neg hwords]
  omega

/-- Replacing an element changes nothing about the reservation. -/
theorem Reserves.set {i : Nat} {value : UInt64} (hv : v.Reserves n) (h : v.set i value = .ok v') :
    v'.Reserves n := ⟨hv.tidy.set h, (shape_set h).2.2.trans hv.capacity_eq⟩

/-- Filling a vector of zeros. -/
theorem reserves_of_zeros {α : Type} {place : α → Nat} {value : α → UInt64} {l : List α}
    (hm : w.Measures n) (hn : 0 < n)
    (h : (replicate? w n 0 >>= l.foldlM fun v p => v.set (place p) (value p)) = .ok v) :
    v.Reserves (max 4 (w.wordsFor n)) := by
  obtain ⟨blank, hblank, h⟩ := bind_eq_ok.1 h
  refine foldlM_ok (fun _ u => u.Reserves (max 4 (w.wordsFor n))) (reserves_zeros hm hn hblank) ?_ h
  intro before p after u u' _ hu hset
  exact hu.set hset

end PackedVector

/-! ## The arrays -/

section Arrays

variable {text : Array UInt8} {v v' : PackedVector} {w : Width} {n : Nat}

/-- The suffix array and its inverse reserve the words that they need. -/
theorem reserves_build (hm : w.Measures text.size) (hpos : 0 < text.size) {pair : SuffixArray.Pair}
    (h : SuffixArray.build text w = .ok pair) :
    pair.positions.Reserves (w.wordsFor text.size) ∧ pair.ranks.Reserves (w.wordsFor text.size) := by
  have hcorrect := SuffixArray.correct_rankSuffixes hpos
  have hcodes := SuffixArray.length_codes text
  have hpack : ∀ {positions : List Nat} {u : PackedVector}, positions.length = text.size →
      SuffixArray.pack w positions = .ok u → u.Reserves (w.wordsFor text.size) := by
    intro positions u hlength hu
    have hlist := PackedVector.reserves_ofList? (by rwa [List.length_map, hlength]) hu
    rwa [List.length_map, hlength] at hlist
  obtain ⟨positions, hpositions, h⟩ := bind_eq_ok.1 h
  obtain ⟨ranks, hranks, h⟩ := bind_eq_ok.1 h
  injection h with h
  subst h
  refine ⟨hpack (hcorrect.sorts.length_eq.trans hcodes) hpositions, hpack ?_ hranks⟩
  rw [Array.length_toList, hcorrect.size_eq, hcodes]

/-- The inverse reserves four words at least, as the zeros do that it is filled into. -/
theorem reserves_invert (hm : w.Measures v.length) (hpos : 0 < v.length)
    (h : SuffixArray.invert v w = .ok v') : v'.Reserves (max 4 (w.wordsFor v.length)) :=
  PackedVector.reserves_of_zeros hm hpos h

/-- The phi array reserves four words at least, as the zeros do that it is filled into. -/
theorem reserves_phi (hm : w.Measures v.length) (hpos : 0 < v.length)
    (h : CommonPrefix.phi v w = .ok v') : v'.Reserves (max 4 (w.wordsFor v.length)) :=
  PackedVector.reserves_of_zeros hm hpos h

/-- The prefix array reserves four words at least, as the zeros do that it is filled into. -/
theorem reserves_lcp {plcp : PackedVector} (hm : w.Measures v.length) (hpos : 0 < v.length)
    (h : CommonPrefix.lcp v plcp w = .ok v') : v'.Reserves (max 4 (w.wordsFor v.length)) :=
  PackedVector.reserves_of_zeros hm hpos h

/-- The permuted prefix array keeps the reservation of the phi array. -/
theorem reserves_plcp (hv : v.Reserves n) (h : CommonPrefix.plcp text v = .ok v') : v'.Reserves n :=
  plcp_keeps (P := fun u => u.Reserves n) (fun _ _ _ _ hu hset => hu.set hset) hv h

/-- The transform reserves the words that it needs. -/
theorem reserves_transform (hm : w.Measures v.length) (h : Transform.build text v w = .ok v') :
    v'.Reserves (w.wordsFor v.length) := by
  have hlength : (v.toList.map fun i => (Transform.byteBefore text i.toNat).toUInt64).length =
      v.length := by rw [List.length_map, v.length_toList]
  rw [← hlength] at hm ⊢
  exact PackedVector.reserves_ofList? hm h

end Arrays

end TextIndex
