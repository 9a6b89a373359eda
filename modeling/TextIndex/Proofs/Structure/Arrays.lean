import TextIndex.Proofs.Packed.Resize
import TextIndex.Proofs.Structure.Doubling
import TextIndex.Proofs.Structure.Reference
import TextIndex.Structure.CommonPrefix
import TextIndex.Structure.SentinelText
import TextIndex.Structure.Transform

/-!
# The arrays are built right

Each array is put together in one pass over the suffix array: a value is stored for every rank, at a
place that no other rank has. So if no value is refused, every entry is the one that belongs to its
rank. The permuted prefix array, which is made from the phi array in place, has a module of its own.
-/

set_option autoImplicit false

namespace TextIndex

open PackedVector (Housed values)

/-- The sentinel is less than every other byte. -/
theorem endsWithLeast_bytes (text : SentinelText) :
    EndsWithLeast (SuffixArray.codes text.bytes) := by
  refine ⟨SuffixArray.codes text.body, 0, by simp [SuffixArray.codes, SentinelText.bytes], ?_⟩
  intro x hx
  obtain ⟨b, hb, rfl⟩ := List.mem_map.1 hx
  have hne := text.ne_sentinel b (Array.mem_toList_iff.1 hb)
  exact Nat.pos_of_ne_zero fun hzero => hne (UInt8.toNat_inj.1 hzero)

/-- The vector stores the structure of a kind. -/
structure PackedVector.Holds (text sa : List Nat) (k : Kind) (v : PackedVector) : Prop where
  housed : v.Housed
  right : Right text sa k v.values

namespace PackedVector.Holds

variable {text sa : List Nat} {k : Kind} {v : PackedVector}

/-- A structure has one entry for each position of the text. -/
theorem length_eq (h : v.Holds text sa k) : v.length = text.length := by
  rw [← v.length_values, h.right.length_eq]

/-- The element that belongs to a rank. -/
theorem exists_element (h : v.Holds text sa k) {r : Nat} (hr : r < text.length) :
    ∃ x, v.toList[place sa k r]? = some x ∧ x.toNat = entry text sa k r :=
  getElem?_values_eq_some.1 (h.right.entry_eq r hr)

/-- The elements are the entries of all ranks. -/
theorem mem_toList_iff (hsa : Sorts text sa) (h : v.Holds text sa k) {x : UInt64} :
    x ∈ v.toList ↔ ∃ r, r < text.length ∧ x.toNat = entry text sa k r := by
  constructor
  · intro hx
    obtain ⟨i, hi⟩ := List.mem_iff_getElem?.1 hx
    have hlt : i < text.length := by
      rw [← h.length_eq, ← v.length_toList]
      exact (List.getElem?_eq_some_iff.1 hi).1
    obtain ⟨r, hr, rfl⟩ := hsa.exists_place k hlt
    obtain ⟨y, hy, hentry⟩ := h.exists_element hr
    obtain rfl : x = y := Option.some.inj (hi.symm.trans hy)
    exact ⟨r, hr, hentry⟩
  · rintro ⟨r, hr, hentry⟩
    obtain ⟨y, hy, hy'⟩ := h.exists_element hr
    obtain rfl : x = y := UInt64.toNat_inj.1 (hentry.trans hy'.symm)
    exact List.mem_of_getElem? hy

/-- Only the list of elements matters. -/
theorem congr {v' : PackedVector} (h : v.Holds text sa k) (hv' : v'.Housed)
    (hlist : v'.toList = v.toList) : v'.Holds text sa k where
  housed := hv'
  right := by
    unfold values
    rw [hlist]
    exact h.right

/-- Two vectors with the structure of a kind have the same elements. -/
theorem toList_eq (hsa : Sorts text sa) {v' : PackedVector} (h : v.Holds text sa k)
    (h' : v'.Holds text sa k) : v.toList = v'.toList := by
  have hvalues : v.toList.map UInt64.toNat = v'.toList.map UInt64.toNat := h.right.unique hsa h'.right
  exact List.map_injective_iff.2 (fun _ _ => UInt64.toNat_inj.1) hvalues

end PackedVector.Holds

/-- Filling a vector of zeros with a value for every rank, each at its own place. -/
theorem holds_of_putAll {text sa : List Nat} {k : Kind} {v : PackedVector}
    {pairs : List (Nat × UInt64)} (hv : v.Housed)
    (hlist : v.toList = putAll (List.replicate text.length 0) pairs)
    (hnodup : (pairs.map Prod.fst).Nodup)
    (hpairs : ∀ r, r < text.length → place sa k r < text.length ∧
      ∃ x, (place sa k r, x) ∈ pairs ∧ x.toNat = entry text sa k r) :
    v.Holds text sa k where
  housed := hv
  right := {
    length_eq := by
      rw [v.length_values, ← v.length_toList, hlist]
      simp
    entry_eq := fun r hr => by
      obtain ⟨hplace, x, hx, hentry⟩ := hpairs r hr
      refine PackedVector.getElem?_values_eq_some.2 ⟨x, ?_, hentry⟩
      rw [hlist]
      exact getElem?_putAll hnodup hx (by simpa using hplace) }

section Build

variable {text : Array UInt8} {sa : List Nat} {w : Width}

/-! ## The suffix array and its inverse -/

/-- Packed positions are read back as they were. -/
theorem values_pack {n : Nat} {positions : List Nat} {v : PackedVector} (hm : w.Measures n)
    (hlength : positions.length = n) (hlt : ∀ i ∈ positions, i < n)
    (h : SuffixArray.pack w positions = .ok v) : v.Housed ∧ v.values = positions := by
  obtain ⟨htidy, hlist⟩ := PackedVector.toList_ofList? (by simpa [hlength] using hm) h
  refine ⟨htidy.housed, ?_⟩
  unfold values
  rw [hlist, List.map_map]
  refine (List.map_congr_left ?_).trans (List.map_id _)
  intro i hi
  exact toNat_toUInt64_of_lt hm.lt_size (hlt i hi)

/-- Ranks are smaller than the number of suffixes. -/
theorem SuffixArray.Ranking.Correct.rank_lt {text : List Nat} {r : SuffixArray.Ranking}
    (h : r.Correct text) {c : Nat} (hc : c ∈ r.ranks.toList) : c < text.length := by
  obtain ⟨hsorts, hsize, hrank⟩ := h
  obtain ⟨i, hi, hic⟩ := List.mem_iff_getElem.1 hc
  have hi' : i < text.length := by rw [← hsize]; simpa using hi
  obtain ⟨s, hs, hsi⟩ := hsorts.exists_rank hi'
  have heq := hrank s hs
  rw [hsi] at heq
  simp only [Array.getElem_toList] at hic
  simp only [Array.getD_eq_getD_getElem?, Array.getElem?_eq_getElem (by simpa using hi : i < _),
    Option.getD_some, hic] at heq
  rwa [heq, ← hsorts.length_eq]

/-- The suffix array and its inverse, as they are built together. -/
theorem holds_build {pair : SuffixArray.Pair} (hm : w.Measures text.size) (hpos : 0 < text.size)
    (hsa : Sorts (SuffixArray.codes text) sa) (h : SuffixArray.build text w = .ok pair) :
    pair.positions.Holds (SuffixArray.codes text) sa .suffixArray ∧
      pair.ranks.Holds (SuffixArray.codes text) sa .inverse := by
  obtain ⟨hsorts, hsize, hrank⟩ := SuffixArray.correct_rankSuffixes hpos
  obtain rfl := hsa.unique hsorts
  obtain ⟨positions, hpositions, h⟩ := bind_eq_ok.1 h
  obtain ⟨ranks, hranks, h⟩ := bind_eq_ok.1 h
  injection h with h
  subst h
  have hlength := hsorts.length_eq
  have hcodes := SuffixArray.length_codes text
  rw [← hcodes] at hm
  obtain ⟨hhoused, hvalues⟩ := values_pack hm hlength (fun i hi => hsorts.mem_iff.1 hi) hpositions
  obtain ⟨hhoused', hvalues'⟩ := values_pack hm (by rw [Array.length_toList, hsize])
    (fun _ hc => SuffixArray.Ranking.Correct.rank_lt ⟨hsorts, hsize, hrank⟩ hc) hranks
  refine ⟨⟨hhoused, ?_, ?_⟩, ⟨hhoused', ?_, ?_⟩⟩
  · rw [hvalues, hlength]
  · intro r hr
    rw [hvalues]
    show _ = some ((SuffixArray.rankSuffixes text).positions.getD r 0)
    rw [← hsorts.length_eq] at hr
    rw [List.getD_eq_getElem _ _ hr, List.getElem?_eq_getElem]
    rfl
  · rw [hvalues', Array.length_toList, hsize]
  · intro r hr
    rw [hvalues']
    show (SuffixArray.rankSuffixes text).ranks.toList[(SuffixArray.rankSuffixes text).positions.getD r 0]? =
      some r
    have hlt := hsorts.getD_lt hr
    have heq := hrank r (by rwa [hlength])
    rw [← List.getD_eq_getElem _ 0] at heq
    rw [Array.getElem?_toList]
    rw [← hsize] at hlt
    simp only [Array.getD_eq_getD_getElem?, Array.getElem?_eq_getElem hlt, Option.getD_some] at heq ⊢
    rw [heq]

/-- What a vector that holds the suffix array lists. -/
theorem values_of_holds {text sa : List Nat} {v : PackedVector} (hsa : Sorts text sa)
    (h : v.Holds text sa .suffixArray) : v.values = sa := h.right.unique hsa hsa.right

/-- Inverting the suffix array. -/
theorem holds_invert {text sa : List Nat} {v v' : PackedVector} (hm : w.Measures text.length)
    (hsa : Sorts text sa) (hv : v.Holds text sa .suffixArray)
    (h : SuffixArray.invert v w = .ok v') : v'.Holds text sa .inverse := by
  obtain ⟨blank, hblank, h⟩ := bind_eq_ok.1 h
  rw [hv.length_eq] at hblank
  obtain ⟨htidy, hzeros⟩ := PackedVector.toList_replicate? hm hblank
  obtain ⟨hlength, hwidth, -⟩ := PackedVector.shape_resize hblank
  obtain ⟨hhoused', hlist⟩ := PackedVector.toList_setEach htidy.housed (by rwa [hlength, hwidth]) h
  rw [hzeros] at hlist
  refine holds_of_putAll hhoused' hlist ?_ fun r hr => ⟨hsa.getD_lt hr, r.toUInt64, ?_,
    toNat_toUInt64_of_lt hm.lt_size hr⟩
  · have hfst : (v.toList.zipIdx.map fun p => (p.1.toNat, p.2.toUInt64)).map Prod.fst = v.values :=
      calc _ = (v.toList.zipIdx.map Prod.fst).map UInt64.toNat := by simp only [List.map_map]; rfl
        _ = v.values := by rw [List.zipIdx_map_fst]; rfl
    rw [hfst, values_of_holds hsa hv]
    exact hsa.nodup
  · obtain ⟨x, hx, hentry⟩ := hv.exists_element hr
    exact List.mem_map.2 ⟨(x, r), List.mk_mem_zipIdx_iff_getElem?.2 hx, by rw [hentry]; rfl⟩

/-! ## The phi array -/

/-- Building the phi array. -/
theorem holds_phi {text sa : List Nat} {v v' : PackedVector} (hm : w.Measures text.length)
    (hsa : Sorts text sa) (hv : v.Holds text sa .suffixArray)
    (h : CommonPrefix.phi v w = .ok v') : v'.Holds text sa .phi := by
  obtain ⟨blank, hblank, h⟩ := bind_eq_ok.1 h
  rw [hv.length_eq] at hblank
  obtain ⟨htidy, hzeros⟩ := PackedVector.toList_replicate? hm hblank
  obtain ⟨hlength, hwidth, -⟩ := PackedVector.shape_resize hblank
  obtain ⟨hhoused', hlist⟩ := PackedVector.toList_setEach htidy.housed (by rwa [hlength, hwidth]) h
  rw [hzeros] at hlist
  refine holds_of_putAll hhoused' hlist ?_ fun r hr => ⟨hsa.getD_lt hr, ?_⟩
  · have hfst : ((v.toList.zip ((v.get? (v.length - 1)).getD 0 :: v.toList)).map
        fun p => (p.1.toNat, p.2)).map Prod.fst = v.values :=
      calc _ = ((v.toList.zip ((v.get? (v.length - 1)).getD 0 :: v.toList)).map Prod.fst).map
              UInt64.toNat := by simp only [List.map_map]; rfl
        _ = v.values := by rw [List.map_fst_zip (by simp)]; rfl
    rw [hfst, values_of_holds hsa hv]
    exact hsa.nodup
  · obtain ⟨x, hx, hentry⟩ := hv.exists_element hr
    -- the entry before the first one is the last one
    obtain ⟨y, hy, hbefore⟩ : ∃ y, ((v.get? (v.length - 1)).getD 0 :: v.toList)[r]? = some y ∧
        y.toNat = sa.getD (rankBefore text r) 0 := by
      unfold rankBefore
      cases r with
      | zero =>
        obtain ⟨y, hy, hlast⟩ := hv.exists_element (r := text.length - 1) (by omega)
        refine ⟨y, ?_, hlast⟩
        rw [List.getElem?_cons_zero, v.get?_eq, hv.length_eq]
        exact congrArg some (congrArg (Option.getD · 0) hy)
      | succ r =>
        obtain ⟨y, hy, hprev⟩ := hv.exists_element (r := r) (by omega)
        exact ⟨y, hy, hprev⟩
    refine ⟨y, List.mem_map.2 ⟨(x, y), ?_, by rw [hentry]; rfl⟩, hbefore⟩
    exact List.mem_iff_getElem?.2 ⟨r, List.getElem?_zip_eq_some.2 ⟨hx, hy⟩⟩

/-! ## Common prefixes by rank -/

/-- Reading the common prefixes in the order of the suffixes. -/
theorem holds_lcp {text sa : List Nat} {v plcp v' : PackedVector} (hm : w.Measures text.length)
    (hv : v.Holds text sa .suffixArray) (hplcp : plcp.Holds text sa .plcp)
    (h : CommonPrefix.lcp v plcp w = .ok v') : v'.Holds text sa .lcp := by
  obtain ⟨blank, hblank, h⟩ := bind_eq_ok.1 h
  rw [hv.length_eq] at hblank
  obtain ⟨htidy, hzeros⟩ := PackedVector.toList_replicate? hm hblank
  obtain ⟨hlength, hwidth, -⟩ := PackedVector.shape_resize hblank
  obtain ⟨hhoused', hlist⟩ := PackedVector.toList_setEach htidy.housed (by rwa [hlength, hwidth]) h
  rw [hzeros] at hlist
  have hplaces : ((v.toList.zipIdx.drop 1).map
      fun p => (p.2, (plcp.get? p.1.toNat).getD 0)).map Prod.fst = List.range' 1 (v.length - 1) :=
    calc _ = (v.toList.zipIdx.map Prod.snd).drop 1 := by rw [List.map_map, ← List.map_drop]; rfl
      _ = _ := by rw [List.zipIdx_map_snd, List.drop_range', v.length_toList]
  have hnodup : (((v.toList.zipIdx.drop 1).map
      fun p => (p.2, (plcp.get? p.1.toNat).getD 0)).map Prod.fst).Nodup := by
    rw [hplaces]
    exact List.nodup_range' ..
  refine ⟨hhoused', ⟨by rw [v'.length_values, ← v'.length_toList, hlist]; simp, ?_⟩⟩
  intro r hr
  refine PackedVector.getElem?_values_eq_some.2 ?_
  show ∃ x, v'.toList[r]? = some x ∧ x.toNat = lcpAt text sa r
  rw [hlist]
  cases r with
  | zero =>
    -- the first entry is not written
    refine ⟨0, ?_, by simp [lcpAt]⟩
    rw [getElem?_putAll_of_not_mem, List.getElem?_replicate_of_lt hr]
    rw [hplaces]
    simp
  | succ r =>
    obtain ⟨x, hx, hposition⟩ := hv.exists_element hr
    obtain ⟨y, hy, hentry⟩ := hplcp.exists_element hr
    refine ⟨y, getElem?_putAll hnodup ?_ (by simpa using hr), hentry⟩
    refine List.mem_map.2 ⟨(x, r + 1), ?_, ?_⟩
    · refine List.mem_iff_getElem?.2 ⟨r, ?_⟩
      rw [List.getElem?_drop, List.getElem?_zipIdx, Nat.add_comm 1 r]
      have hx' : v.toList[r + 1]? = some x := hx
      rw [hx']
      simp
    · have hread : plcp.get? x.toNat = some y := by
        rw [plcp.get?_eq, hposition]
        exact hy
      rw [hread]
      rfl

/-! ## The transform -/

/-- The byte before a position is the member before it. -/
theorem toNat_byteBefore (text : Array UInt8) (i : Nat) :
    (Transform.byteBefore text i).toNat = memberBefore (SuffixArray.codes text) i := by
  have hget : ∀ j, (text.getD j 0).toNat = (SuffixArray.codes text).getD j 0 := by
    intro j
    simp only [SuffixArray.codes, List.getD_eq_getElem?_getD, List.getElem?_map,
      Array.getElem?_toList, Array.getD_eq_getD_getElem?]
    cases text[j]? <;> rfl
  unfold Transform.byteBefore memberBefore
  rw [SuffixArray.length_codes]
  split <;> exact hget _

/-- Reading the bytes before the suffixes in their order. -/
theorem holds_transform {v v' : PackedVector} (hm : w.Measures text.size)
    (hv : v.Holds (SuffixArray.codes text) sa .suffixArray)
    (h : Transform.build text v w = .ok v') : v'.Holds (SuffixArray.codes text) sa .bwt := by
  have hlength : v.length = text.size := hv.length_eq.trans (SuffixArray.length_codes text)
  obtain ⟨htidy, hlist⟩ := PackedVector.toList_ofList? (by simpa [hlength] using hm) h
  refine ⟨htidy.housed, ⟨?_, ?_⟩⟩
  · rw [v'.length_values, ← v'.length_toList, hlist, List.length_map, v.length_toList, hv.length_eq]
  · intro r hr
    obtain ⟨x, hx, hposition⟩ := hv.exists_element hr
    refine PackedVector.getElem?_values_eq_some.2
      ⟨(Transform.byteBefore text x.toNat).toUInt64, ?_, ?_⟩
    · have hx' : v.toList[r]? = some x := hx
      show v'.toList[r]? = _
      rw [hlist, List.getElem?_map, hx']
      rfl
    · rw [UInt8.toNat_toUInt64, toNat_byteBefore, hposition]
      rfl

end Build

end TextIndex
