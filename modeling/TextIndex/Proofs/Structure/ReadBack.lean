import Mathlib.Data.List.Perm.Subperm
import Mathlib.Data.Prod.Lex
import TextIndex.Proofs.Structure.Capacity

/-!
# The transform can be read back

The transform of a text lists, in the order of the suffixes, the member before each suffix. Hence its
places stand for suffixes in two ways: a place has a rank, and the member that it holds begins the
suffix one position earlier. Both orders are the same as far as equal members are concerned: of two
suffixes that begin with the same member the first is the one whose rest comes first. So the places, in
the order of what they hold and with equal members in the order in which they stand, lead from each
suffix to the one that starts one position later (`placesInOrder_eq`).

Going from place to place in this way reads the text from the transform alone (`readBack_eq`). It begins
at rank zero, which is that of the sentinel, and the position after the sentinel is the first one of
the text.
-/

set_option autoImplicit false

namespace TextIndex

/-! ## One position later, on the circle -/

/-- The position after `i`; the last one is followed by the first. -/
def positionAfter (text : List Nat) (i : Nat) : Nat := if i + 1 = text.length then 0 else i + 1

section After

variable {text sa l : List Nat} {i r s : Nat}

/-- The next position, round the end, is one of the text. -/
theorem positionAfter_lt (hi : i < text.length) : positionAfter text i < text.length := by
  unfold positionAfter
  split <;> omega

/-- Different positions have different next ones. -/
theorem positionAfter_inj {j : Nat} (h : positionAfter text i = positionAfter text j) : i = j := by
  unfold positionAfter at h
  split at h <;> split at h <;> omega

/-- Before the next position stands the member of this one. -/
theorem memberBefore_positionAfter (text : List Nat) (i : Nat) :
    memberBefore text (positionAfter text i) = text.getD i 0 := by
  unfold memberBefore positionAfter
  by_cases hlast : i + 1 = text.length
  · rw [if_pos hlast, if_pos rfl, ← hlast]
    rfl
  · rw [if_neg hlast, if_neg (Nat.succ_ne_zero i)]
    rfl

/-- The rank of the suffix that starts one position after the suffix of rank `r`. -/
def rankAfter (text sa : List Nat) (r : Nat) : Nat := sa.idxOf (positionAfter text (sa.getD r 0))

namespace Sorts

/-- The rank of the next position is one of the ranks. -/
theorem rankAfter_lt (h : Sorts text sa) (hr : r < text.length) :
    rankAfter text sa r < text.length := by
  rw [← h.length_eq]
  exact List.idxOf_lt_length_iff.2 (h.mem_iff.2 (positionAfter_lt (h.getD_lt hr)))

/-- At the rank of the next position stands the next position. -/
theorem getD_rankAfter (h : Sorts text sa) (hr : r < text.length) :
    sa.getD (rankAfter text sa r) 0 = positionAfter text (sa.getD r 0) := by
  have hlt := h.rankAfter_lt hr
  rw [← h.length_eq] at hlt
  rw [List.getD_eq_getElem _ _ hlt]
  exact List.getElem_idxOf hlt

/-- Every rank comes after exactly one. -/
theorem rankAfter_perm (h : Sorts text sa) :
    ((List.range text.length).map (rankAfter text sa)).Perm (List.range text.length) := by
  have hnodup : ((List.range text.length).map (rankAfter text sa)).Nodup := by
    refine List.Nodup.map_on ?_ List.nodup_range
    intro r hr s hs heq
    have hr := List.mem_range.1 hr
    have hs := List.mem_range.1 hs
    have hposition := congrArg (sa.getD · 0) heq
    rw [h.getD_rankAfter hr, h.getD_rankAfter hs] at hposition
    exact (h.getD_inj hr hs).1 (positionAfter_inj hposition)
  have hsubset : (List.range text.length).map (rankAfter text sa) ⊆ List.range text.length := by
    intro s hs
    obtain ⟨r, hr, rfl⟩ := List.mem_map.1 hs
    exact List.mem_range.2 (h.rankAfter_lt (List.mem_range.1 hr))
  exact (List.subperm_of_subset hnodup hsubset).perm_of_length_le (by simp)

/-- The place of the following suffix holds the member with which a suffix begins. -/
theorem member_rankAfter (h : Sorts text sa) (hl : Right text sa .bwt l) (hr : r < text.length) :
    l.getD (rankAfter text sa r) 0 = text.getD (sa.getD r 0) 0 := by
  have hentry : l[rankAfter text sa r]? = some (memberBefore text (sa.getD (rankAfter text sa r) 0)) :=
    hl.entry_eq _ (h.rankAfter_lt hr)
  rw [List.getD_eq_getElem?_getD, hentry, h.getD_rankAfter hr, memberBefore_positionAfter]
  rfl

/-! ## The order of the places -/

/-- Suffixes in their order begin with members in their order, and where these are equal the following
suffixes are in the same order. -/
theorem begins_lt (h : Sorts text sa) (hend : EndsWithLeast text) (hrs : r < s)
    (hs : s < text.length) :
    text.getD (sa.getD r 0) 0 < text.getD (sa.getD s 0) 0 ∨
      text.getD (sa.getD r 0) 0 = text.getD (sa.getD s 0) 0 ∧
        rankAfter text sa r < rankAfter text sa s := by
  have hr := Nat.lt_trans hrs hs
  have hi := h.getD_lt hr
  have hj := h.getD_lt hs
  have hne : sa.getD r 0 ≠ sa.getD s 0 := fun heq => Nat.ne_of_lt hrs ((h.getD_inj hr hs).1 heq)
  have hlt := h.drop_getD_lt hrs hs
  have hafter := h.getD_rankAfter hr
  have hafter' := h.getD_rankAfter hs
  generalize sa.getD r 0 = i at hi hne hlt hafter ⊢
  generalize sa.getD s 0 = j at hj hne hlt hafter' ⊢
  rw [List.drop_eq_getElem_cons hi, List.drop_eq_getElem_cons hj, List.cons_lt_cons_iff] at hlt
  rw [List.getD_eq_getElem _ _ hi, List.getD_eq_getElem _ _ hj]
  refine hlt.imp_right fun ⟨hsame, hrest⟩ => ⟨hsame, ?_⟩
  -- the least member occurs once, so that neither suffix consists of it alone
  have hinside := hend.add_commonPrefix_lt hi hj hne
  have hinside' := hend.add_commonPrefix_lt hj hi hne.symm
  rw [List.drop_eq_getElem_cons hi, List.drop_eq_getElem_cons hj, commonPrefix_cons] at hinside hinside'
  rw [if_pos hsame] at hinside
  rw [if_pos hsame.symm] at hinside'
  rw [positionAfter, if_neg (by omega)] at hafter hafter'
  apply h.lt_of_drop_getD_lt (h.rankAfter_lt hr) (h.rankAfter_lt hs)
  rwa [hafter, hafter']

end Sorts

/-- A place after what it holds: places are compared by their members, and where these are equal by
where they stand. -/
def placeKey (l : List Nat) (p : Nat) : ℕ ×ₗ ℕ := toLex (l.getD p 0, p)

/-- The places of a list in the order of what they hold. -/
def placesInOrder (l : List Nat) : List Nat :=
  sort (fun p q => decide (placeKey l p ≤ placeKey l q)) (List.range l.length)

/-- Places are ordered by what stands there. -/
theorem pairwise_placesInOrder (l : List Nat) :
    (placesInOrder l).Pairwise fun p q => placeKey l p ≤ placeKey l q := by
  have htrans : ∀ p q o, decide (placeKey l p ≤ placeKey l q) = true →
      decide (placeKey l q ≤ placeKey l o) = true → decide (placeKey l p ≤ placeKey l o) = true :=
    fun p q o hpq hqo => decide_eq_true (le_trans (of_decide_eq_true hpq) (of_decide_eq_true hqo))
  have htotal : ∀ p q, (decide (placeKey l p ≤ placeKey l q) ||
      decide (placeKey l q ≤ placeKey l p)) = true :=
    fun p q => by simpa using le_total (placeKey l p) (placeKey l q)
  have hsorted := List.pairwise_mergeSort htrans htotal (List.range l.length)
  rw [placesInOrder, sort_eq_mergeSort]
  exact hsorted.imp of_decide_eq_true

/-- The transform alone tells which suffix follows. -/
theorem placesInOrder_eq (h : Sorts text sa) (hend : EndsWithLeast text) (hl : Right text sa .bwt l) :
    placesInOrder l = (List.range text.length).map (rankAfter text sa) := by
  have hafter : ((List.range text.length).map (rankAfter text sa)).Pairwise
      fun p q => placeKey l p ≤ placeKey l q := by
    rw [List.pairwise_map]
    refine List.pairwise_lt_range.imp_of_mem ?_
    intro r s hr hs hrs
    have hr := List.mem_range.1 hr
    have hs := List.mem_range.1 hs
    have hlt := h.begins_lt hend hrs hs
    rw [← h.member_rankAfter hl hr, ← h.member_rankAfter hl hs] at hlt
    exact le_of_lt (Prod.Lex.toLex_lt_toLex.2 hlt)
  have hperm : (placesInOrder l).Perm ((List.range text.length).map (rankAfter text sa)) := by
    rw [placesInOrder, sort_eq_mergeSort]
    refine (List.mergeSort_perm _ _).trans ?_
    rw [hl.length_eq]
    exact h.rankAfter_perm.symm
  refine hperm.eq_of_pairwise ?_ (pairwise_placesInOrder l) hafter
  intro p q _ _ hpq hqp
  exact congrArg (fun key => (ofLex key).2) (le_antisymm hpq hqp)

/-! ## Reading back -/

/-- The place that holds the next member of the text. -/
def follow (l : List Nat) (p : Nat) : Nat := (placesInOrder l).getD p 0

/-- What is read on the way from place to place. The first step leads from the sentinel to the start
of the text. -/
def readBack (l : List Nat) : List Nat :=
  (List.range l.length).map fun i => l.getD ((follow l)^[i + 2] 0) 0

/-- The place to which the transform leads is the rank of the next position. -/
theorem follow_eq (h : Sorts text sa) (hend : EndsWithLeast text) (hl : Right text sa .bwt l)
    (hr : r < text.length) : follow l r = rankAfter text sa r := by
  unfold follow
  rw [placesInOrder_eq h hend hl, List.getD_eq_getElem _ _ (by simpa using hr), List.getElem_map,
    List.getElem_range]

/-- After as many steps and one more, the suffix at a position is reached. -/
theorem follow_iterate (h : Sorts text sa) (hend : EndsWithLeast text) (hl : Right text sa .bwt l)
    (hi : i < text.length) :
    (follow l)^[i + 1] 0 < text.length ∧ sa.getD ((follow l)^[i + 1] 0) 0 = i := by
  induction i with
  | zero =>
    rw [Function.iterate_one, follow_eq h hend hl hi, h.getD_rankAfter hi, h.getD_zero hend,
      positionAfter, if_pos (Nat.sub_add_cancel hi)]
    exact ⟨h.rankAfter_lt hi, rfl⟩
  | succ i ih =>
    obtain ⟨hlt, hposition⟩ := ih (by omega)
    rw [Function.iterate_succ_apply', follow_eq h hend hl hlt, h.getD_rankAfter hlt, hposition,
      positionAfter, if_neg (Nat.ne_of_lt hi)]
    exact ⟨h.rankAfter_lt hlt, rfl⟩

/-- Reading back returns the text. -/
theorem readBack_eq (h : Sorts text sa) (hend : EndsWithLeast text) (hl : Right text sa .bwt l) :
    readBack l = text := by
  unfold readBack
  rw [hl.length_eq]
  apply List.ext_getElem (by simp)
  intro i _ hi
  obtain ⟨hlt, hposition⟩ := follow_iterate h hend hl hi
  rw [List.getElem_map, List.getElem_range, Function.iterate_succ_apply', follow_eq h hend hl hlt,
    h.member_rankAfter hl hlt, hposition, List.getD_eq_getElem _ _ hi]

/-! ## The same members -/

/-- Reading a list place by place gives the list. -/
theorem map_getD_range (l : List Nat) : (List.range l.length).map (l.getD · 0) = l := by
  apply List.ext_getElem (by simp)
  intro i _ hi
  simp [hi]

/-- The transform has the members of the text. -/
theorem perm_of_right (h : Sorts text sa) (hl : Right text sa .bwt l) : l.Perm text := by
  have hmembers : ((List.range text.length).map (rankAfter text sa)).map (l.getD · 0) =
      sa.map (text.getD · 0) :=
    calc _ = (List.range text.length).map fun r => text.getD (sa.getD r 0) 0 := by
          rw [List.map_map]
          exact List.map_congr_left fun r hr => h.member_rankAfter hl (List.mem_range.1 hr)
      _ = ((List.range sa.length).map (sa.getD · 0)).map (text.getD · 0) := by
          rw [List.map_map, h.length_eq]
          rfl
      _ = _ := by rw [map_getD_range]
  have hplaces : l.Perm (sa.map (text.getD · 0)) := by
    have hperm := h.rankAfter_perm.symm.map (l.getD · 0)
    rwa [hmembers, ← hl.length_eq, map_getD_range] at hperm
  have hpositions : (sa.map (text.getD · 0)).Perm text := by
    have hperm := h.perm.map (text.getD · 0)
    rwa [map_getD_range] at hperm
  exact hplaces.trans hpositions

end After

/-! ## Every text -/

/-- Texts with the same codes are the same. -/
theorem SuffixArray.codes_inj {text text' : Array UInt8} (h : codes text = codes text') :
    text = text' := by
  apply Array.toList_inj.1
  exact List.map_injective_iff.2 (fun _ _ heq => UInt8.toNat_inj.1 heq) h

/-- Texts with the same bytes, the sentinel included, are the same. -/
theorem SentinelText.bytes_inj {text text' : SentinelText} (h : text.bytes = text'.bytes) :
    text = text' := by
  obtain ⟨body, hbody⟩ := text
  obtain ⟨body', hbody'⟩ := text'
  obtain rfl : body = body' := (Array.push_eq_push.1 h).2
  rfl

/-- The vector holds the suffix array of a text, at whatever width. -/
structure PackedVector.IsSuffixArray (text : SentinelText) (v : PackedVector) : Prop where
  housed : v.Housed
  sorts : Sorts (SuffixArray.codes text.bytes) v.values

/-- What prefix doubling builds is one. -/
theorem isSuffixArray_build {text : SentinelText} {w : Width} {pair : SuffixArray.Pair}
    (hm : w.Measures text.size) (h : SuffixArray.build text.bytes w = .ok pair) :
    pair.positions.IsSuffixArray text := by
  have hpos : 0 < text.bytes.size := by simp [SentinelText.size]
  have hsorts := (SuffixArray.correct_rankSuffixes hpos).sorts
  have hholds := (holds_build (by rwa [text.size_bytes]) hpos hsorts h).1
  refine ⟨hholds.housed, ?_⟩
  rwa [values_of_holds hsorts hholds]

namespace PackedVector.IsSuffixArray

variable {text : SentinelText} {sa v : PackedVector} {w : Width}

/-- A suffix array of a text is the right structure of its kind. -/
theorem holds (h : sa.IsSuffixArray text) :
    sa.Holds (SuffixArray.codes text.bytes) sa.values .suffixArray := ⟨h.housed, h.sorts.right⟩

/-- What is built from it is the transform of the text. -/
theorem right_build (h : sa.IsSuffixArray text) (hm : w.Measures text.size)
    (hv : Transform.build text.bytes sa w = .ok v) :
    Right (SuffixArray.codes text.bytes) sa.values .bwt v.values :=
  (holds_transform (by rwa [text.size_bytes]) h.holds hv).right

end PackedVector.IsSuffixArray

/-- A transform from which the text can be told. -/
structure LosesNothing (text : SentinelText) (v : PackedVector) : Prop where
  perm : v.values.Perm (SuffixArray.codes text.bytes)
  readBack_eq : readBack v.values = SuffixArray.codes text.bytes
  /-- No other text has this transform, whatever the widths. -/
  only : ∀ (text' : SentinelText) (sa' v' : PackedVector) (w' : Width), sa'.IsSuffixArray text' →
    w'.Measures text'.size → Transform.build text'.bytes sa' w' = .ok v' → v'.values = v.values →
      text' = text

/-- Every text has a transform at each width that holds its bytes, and the transform loses nothing of
it. The storage counter has to measure the text at the width. -/
theorem transform_loses_nothing {text : SentinelText} {sa : PackedVector} {w : Width}
    (hsa : sa.IsSuffixArray text) (hfits : ∀ b ∈ text.bytes, w.Fits b.toUInt64)
    (hm : w.Measures text.size) :
    ∃ v, Transform.build text.bytes sa w = .ok v ∧ LosesNothing text v := by
  obtain ⟨v, hv⟩ := exists_transform (v := sa) hfits
  have hright := hsa.right_build hm hv
  have hback := readBack_eq hsa.sorts (endsWithLeast_bytes text) hright
  refine ⟨v, hv, perm_of_right hsa.sorts hright, hback, ?_⟩
  intro text' sa' v' w' hsa' hm' hv' hvalues
  have hback' := readBack_eq hsa'.sorts (endsWithLeast_bytes text') (hsa'.right_build hm' hv')
  apply SentinelText.bytes_inj
  apply SuffixArray.codes_inj
  rw [← hback', hvalues, hback]

/-- Three letters and the sentinel. In the transform the sentinel stands before the whole text, at rank
one. -/
theorem transform_loses_nothing_three :
    ∃ pair v, SuffixArray.build #[97, 98, 98, 0] ⟨2, by decide, by decide⟩ = .ok pair ∧
      Transform.build #[97, 98, 98, 0] pair.positions ⟨7, by decide, by decide⟩ = .ok v ∧
      LosesNothing ⟨#[97, 98, 98], by simp⟩ v := by
  let text : SentinelText := ⟨#[97, 98, 98], by simp⟩
  have hsize : text.bytes.size < UInt64.size := by decide
  obtain ⟨pair, hpair⟩ := exists_build (w := ⟨2, by decide, by decide⟩) hsize (by decide) (by decide)
  have hsa : pair.positions.IsSuffixArray text := isSuffixArray_build (by decide) hpair
  have hfits : ∀ b ∈ text.bytes, (⟨7, by decide, by decide⟩ : Width).Fits b.toUInt64 := by
    intro b hb
    have hletter : b = 97 ∨ b = 98 ∨ b = 0 := by simpa [text, SentinelText.bytes] using hb
    rcases hletter with rfl | rfl | rfl <;> decide
  obtain ⟨v, hv, hlossless⟩ := transform_loses_nothing hsa hfits (by decide)
  exact ⟨pair, v, hpair, hv, hlossless⟩

example : readBack [98, 0, 98, 97] = [97, 98, 98, 0] := by decide +kernel

end TextIndex
