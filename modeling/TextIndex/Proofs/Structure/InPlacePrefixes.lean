import TextIndex.Proofs.Structure.Largest

/-!
# The common prefixes of a text, made in place

For a text that ends with its least member, the phi array of its suffix array is turned into the
permuted prefix array without an error and without a look outside the text or the vector. From that
the prefix lengths by rank are read, at every width that holds the greatest of them.
-/

set_option autoImplicit false

namespace TextIndex.CommonPrefix

open PackedVector (Housed values)
open SuffixArray (codes length_codes)

/-- The permuted prefix array of a text, as it is made from the phi array in place, and what is read
from it by rank. -/
structure MadeInPlace (text : Array UInt8) (sa phi plcp : PackedVector) : Prop where
  phi_right : Right (codes text) sa.values .phi phi.values
  replaced : ∃ done, Replaces text (List.range (text.size - 1)) (phi, 0) done ∧
    done.1.set (text.size - 1) 0 = .ok plcp
  length_eq : plcp.values.length = text.size
  prefix_eq : ∀ i, i < text.size - 1 → ∃ j, phi.values[i]? = some j ∧
    plcp.values[i]? = some (commonPrefix ((codes text).drop i) ((codes text).drop j))
  last_eq : plcp.values[text.size - 1]? = some 0
  by_rank : ∀ w : Width, w.Fits plcp.maxValue → (58 < w.bits → w.Measures text.size) →
    ∃ lcp, CommonPrefix.lcp sa plcp w = .ok lcp ∧ lcp.values.length = text.size ∧
      lcp.values[0]? = some 0 ∧
      ∀ r i j : Nat, sa.values[r]? = some i → sa.values[r + 1]? = some j →
        lcp.values[r + 1]? = some (commonPrefix ((codes text).drop i) ((codes text).drop j))

section Entries

variable {text sa : List Nat} {phi plcp lcp : PackedVector}

/-- A position holds how far its suffix agrees with the one that its phi entry names. -/
theorem prefix_of_holds (hend : EndsWithLeast text) (hsa : Sorts text sa)
    (hphi : phi.Holds text sa .phi) (hplcp : plcp.Holds text sa .plcp) {i : Nat}
    (hi : i < text.length - 1) : ∃ j, phi.values[i]? = some j ∧
      plcp.values[i]? = some (commonPrefix (text.drop i) (text.drop j)) := by
  obtain ⟨r, hr, hr0, hri⟩ := hsa.exists_pos_rank hend hi
  have hentry : phi.values[sa.getD r 0]? = some (sa.getD (rankBefore text r) 0) :=
    hphi.right.entry_eq r hr
  have hlength : plcp.values[sa.getD r 0]? = some (lcpAt text sa r) := hplcp.right.entry_eq r hr
  rw [rankBefore, if_neg (Nat.ne_of_gt hr0), hri] at hentry
  rw [lcpAt, if_neg (Nat.ne_of_gt hr0), hri, commonPrefix_comm] at hlength
  exact ⟨_, hentry, hlength⟩

/-- The last position holds zero. -/
theorem last_of_holds (hend : EndsWithLeast text) (hsa : Sorts text sa)
    (hplcp : plcp.Holds text sa .plcp) : plcp.values[text.length - 1]? = some 0 := by
  have hfirst : plcp.values[sa.getD 0 0]? = some (lcpAt text sa 0) :=
    hplcp.right.entry_eq 0 hend.length_pos
  rwa [hsa.getD_zero hend] at hfirst

/-- A rank behind the first holds how far its suffix agrees with the one before it. -/
theorem rank_of_holds (hlcp : lcp.Holds text sa .lcp) {r i j : Nat} (hi : sa[r]? = some i)
    (hj : sa[r + 1]? = some j) (hr : r + 1 < text.length) :
    lcp.values[r + 1]? = some (commonPrefix (text.drop i) (text.drop j)) := by
  have hentry : lcp.values[r + 1]? = some (lcpAt text sa (r + 1)) := hlcp.right.entry_eq _ hr
  rwa [lcpAt, if_neg (Nat.succ_ne_zero r), Nat.add_sub_cancel, List.getD_eq_getElem?_getD, hi,
    List.getD_eq_getElem?_getD, hj] at hentry

end Entries

/-- The phi array of a text is made into the permuted prefix array in place, and never fails to, whatever
width of the phi array holds the last position. -/
theorem exists_madeInPlace {text : Array UInt8} (hend : EndsWithLeast (codes text))
    {sa : PackedVector} (hhoused : sa.Housed) (hsorts : Sorts (codes text) sa.values) {w : Width}
    (hw : text.size - 1 < 2 ^ w.bits) (hm : 58 < w.bits → w.Measures text.size) :
    ∃ phi plcp, CommonPrefix.phi sa w = .ok phi ∧ CommonPrefix.plcp text phi = .ok plcp ∧
      MadeInPlace text sa phi plcp := by
  have hcodes := length_codes text
  have hbound : text.size ≤ w.bound := Nat.le_of_pred_lt hw
  have hmeasures := measures_of_le_bound hbound hm
  have hsa : sa.Holds (codes text) sa.values .suffixArray := ⟨hhoused, hsorts.right⟩
  obtain ⟨phi, hphi⟩ := exists_phi hsorts (by rwa [hcodes]) hsa
  have hphis := holds_phi (by rwa [hcodes]) hsorts hsa hphi
  have hphim : phi.width.Measures text.size := by rwa [width_phi hphi]
  obtain ⟨plcp, hplcp⟩ := exists_plcp hend hsorts hphim hphis
  have hplcps := holds_plcp hend hsorts hphim hphis hplcp
  refine ⟨phi, plcp, hphi, hplcp, ?_⟩
  constructor
  case phi_right => exact hphis.right
  case replaced =>
    obtain ⟨done, -, hreplaces, hlast⟩ := exists_replaced hend hsorts hphim hphis hplcp
    exact ⟨done, hreplaces, hlast⟩
  case length_eq => rw [hplcps.right.length_eq, hcodes]
  case prefix_eq =>
    intro i hi
    exact prefix_of_holds hend hsorts hphis hplcps (hcodes ▸ hi)
  case last_eq => exact hcodes ▸ last_of_holds hend hsorts hplcps
  case by_rank =>
    intro w' hfits hm'
    -- a narrower width measures what a wider one does
    have hmeasures' : w'.Measures text.size := by
      rcases Nat.le_total w'.bits w.bits with hle | hle
      · exact hmeasures.narrow hle
      · exact measures_of_le_bound
          (Nat.le_trans hbound (Nat.pow_le_pow_right Nat.two_pos hle)) hm'
    have hall : ∀ x ∈ plcp.toList, w'.Fits x := fun x hx =>
      Nat.lt_of_le_of_lt (plcp.le_maxValue hx) hfits
    obtain ⟨lcp, hlcp⟩ := exists_lcp (v := sa) hall
    have hlcps := holds_lcp (by rwa [hcodes]) hsa hplcps hlcp
    refine ⟨lcp, hlcp, by rw [hlcps.right.length_eq, hcodes], ?_, ?_⟩
    · exact hlcps.right.entry_eq 0 hend.length_pos
    · intro r i j hi hj
      refine rank_of_holds hlcps hi hj ?_
      rw [← hsorts.length_eq]
      exact (List.getElem?_eq_some_iff.1 hj).1

/-- A text of five bytes, with three bits for each position: two suffixes start like the ones before them
in the order, one by a single member and one by two. -/
theorem exists_madeInPlace_five :
    let sa : PackedVector := ⟨⟨#[1116], 1, by decide⟩, 5, ⟨3, by decide, by decide⟩⟩
    sa.values = [4, 3, 1, 2, 0] ∧ ∃ phi plcp, CommonPrefix.phi sa sa.width = .ok phi ∧
      CommonPrefix.plcp #[98, 97, 98, 97, 7] phi = .ok plcp ∧ plcp.values[4]? = some 0 ∧
      ∃ lcp, CommonPrefix.lcp sa plcp ⟨64, by decide, by decide⟩ = .ok lcp ∧
        lcp.values[2]? = some 1 ∧ lcp.values[4]? = some 2 := by
  intro sa
  have hvalues : sa.values = [4, 3, 1, 2, 0] := by decide
  refine ⟨hvalues, ?_⟩
  have hend : EndsWithLeast (codes #[98, 97, 98, 97, 7]) :=
    ⟨[98, 97, 98, 97], 7, by decide, by decide⟩
  have hhoused : sa.Housed := (by decide : 5 * 3 ≤ 64 * 1)
  have hsorts : Sorts (codes #[98, 97, 98, 97, 7]) sa.values :=
    hvalues ▸ ⟨by decide, by decide⟩
  obtain ⟨phi, plcp, hphi, hplcp, hmade⟩ := exists_madeInPlace (w := sa.width) hend hhoused hsorts
    (by decide) (fun hwide => absurd hwide (by decide))
  obtain ⟨lcp, hlcp, -, -, hranks⟩ := hmade.by_rank ⟨64, by decide, by decide⟩
    plcp.maxValue.toNat_lt (fun _ => (by decide : 5 * 64 < UInt64.size))
  refine ⟨phi, plcp, hphi, hplcp, hmade.last_eq, lcp, hlcp, ?_, ?_⟩
  · exact hranks 1 3 1 (by rw [hvalues]; rfl) (by rw [hvalues]; rfl)
  · exact hranks 3 2 0 (by rw [hvalues]; rfl) (by rw [hvalues]; rfl)

end TextIndex.CommonPrefix
