import TextIndex.Proofs.Structure.Arrays

/-!
# Common prefixes by position, in place

The phi array is turned into the permuted prefix array in text order. `Progress i` is the invariant:
positions before `i` hold their common prefix length, the others their phi entry, and the length that
is carried along is not greater than the one that position `i` will get. It is kept because the
length falls by at most one from a position to the next. The last position is left out: its suffix is
the sentinel alone, which comes first in the order and has nothing before it.

No bound is needed for the comparison of two suffixes (`Scans`), because the sentinel ends it before
either suffix does. So the loop over the positions only reads what is there (`Replaces`).
-/

set_option autoImplicit false

namespace TextIndex

open PackedVector (Housed values)

variable {text : Array UInt8} {sa : List Nat}

namespace CommonPrefix

/-! ## Comparing two suffixes -/

/-- Two suffixes are compared from `len` on until their members differ. Every member that is looked at is
one of the text. -/
inductive Scans (text : Array UInt8) (i j : Nat) : Nat → Nat → Prop where
  | stop {len : Nat} {a b : UInt8} (ha : text[i + len]? = some a) (hb : text[j + len]? = some b)
    (hne : a ≠ b) : Scans text i j len len
  | next {len last : Nat} {a : UInt8} (ha : text[i + len]? = some a) (hb : text[j + len]? = some a)
    (hrest : Scans text i j (len + 1) last) : Scans text i j len last

/-- Scanning on makes a common prefix no shorter. -/
theorem Scans.le {i j len last : Nat} (h : Scans text i j len last) : len ≤ last := by
  induction h with
  | stop => exact Nat.le_refl _
  | next _ _ _ ih => exact Nat.le_of_succ_le ih

/-- A bound that the comparison does not reach makes no difference. -/
theorem Scans.extend_eq {i j len last bound : Nat} (h : Scans text i j len last)
    (hbound : last ≤ len + bound) : extend text i j bound len = last := by
  induction h generalizing bound with
  | stop ha hb hne =>
    cases bound with
    | zero => rfl
    | succ bound => simp only [extend, ha, hb, if_neg hne]
  | next ha hb hrest ih =>
    have hle := hrest.le
    cases bound with
    | zero => omega
    | succ bound =>
      simp only [extend, ha, hb, if_true]
      exact ih (by omega)

/-- Different suffixes are compared up to the end of their common prefix, whatever part of it is known
before. -/
theorem scans_commonPrefix (hend : EndsWithLeast (SuffixArray.codes text)) {i j len : Nat}
    (hi : i < text.size) (hj : j < text.size) (hij : i ≠ j)
    (hle : len ≤ commonPrefix ((SuffixArray.codes text).drop i) ((SuffixArray.codes text).drop j)) :
    Scans text i j len
      (commonPrefix ((SuffixArray.codes text).drop i) ((SuffixArray.codes text).drop j)) := by
  have hcodes := SuffixArray.length_codes text
  have hget : ∀ i len, ((SuffixArray.codes text).drop i)[len]? =
      text[i + len]?.map UInt8.toNat := by
    intro i len
    simp [SuffixArray.codes, List.getElem?_drop]
  have hroom := hend.add_commonPrefix_lt (hcodes ▸ hi) (hcodes ▸ hj) hij
  have hroom' := hend.add_commonPrefix_lt (hcodes ▸ hj) (hcodes ▸ hi) hij.symm
  rw [commonPrefix_comm] at hroom'
  -- on what is left of the common prefix; behind it both members are there and differ
  induction hleft : commonPrefix ((SuffixArray.codes text).drop i)
      ((SuffixArray.codes text).drop j) - len generalizing len with
  | zero =>
    have hmore := lt_commonPrefix_iff hle
    obtain rfl := Nat.le_antisymm hle (Nat.le_of_sub_eq_zero hleft)
    rw [hcodes] at hroom hroom'
    refine .stop (Array.getElem?_eq_getElem hroom) (Array.getElem?_eq_getElem hroom') ?_
    intro hsame
    rw [hget, hget, Array.getElem?_eq_getElem hroom, Array.getElem?_eq_getElem hroom', hsame] at hmore
    exact Nat.lt_irrefl _ (hmore.2 ⟨_, rfl, rfl⟩)
  | succ left ih =>
    obtain ⟨x, hx, hy⟩ := (lt_commonPrefix_iff hle).1 (by omega)
    rw [hget] at hx hy
    obtain ⟨a, ha, hax⟩ := Option.map_eq_some_iff.1 hx
    obtain ⟨b, hb, hbx⟩ := Option.map_eq_some_iff.1 hy
    obtain rfl : a = b := UInt8.toNat_inj.1 (hax.trans hbx.symm)
    exact .next ha hb (ih (by omega) (by omega))

/-! ## Replacing the entries -/

/-- The entries of the given positions are replaced one after the other: each is read, the suffix at the
position is compared with the one that the entry names, and the length is put in its place. -/
inductive Replaces (text : Array UInt8) :
    List Nat → PackedVector × Nat → PackedVector × Nat → Prop where
  | nil {state : PackedVector × Nat} : Replaces text [] state state
  | cons {i len last : Nat} {rest : List Nat} {v v' : PackedVector} {x : UInt64}
    {after : PackedVector × Nat} (hread : v.get? i = some x)
    (hscan : Scans text i x.toNat len last) (hwrite : v.set i last.toUInt64 = .ok v')
    (hrest : Replaces text rest (v', last - 1) after) : Replaces text (i :: rest) (v, len) after

/-- Replacing some positions and then others replaces all of them. -/
theorem Replaces.append {l l' : List Nat} {before between after : PackedVector × Nat}
    (h : Replaces text l before between) (h' : Replaces text l' between after) :
    Replaces text (l ++ l') before after := by
  induction h with
  | nil => exact h'
  | cons hread hscan hwrite _ ih => exact .cons hread hscan hwrite (ih h')

/-- One round of the loop, in terms of its comparison. -/
theorem step_eq {state : PackedVector × Nat} {i last : Nat} {x : UInt64}
    (hread : state.1.get? i = some x) (hscan : Scans text i x.toNat state.2 last)
    (hlast : last ≤ text.size) :
    step text state i = do
      let v ← state.1.set i last.toUInt64
      return (v, last - 1) := by
  have hlen : extend text i x.toNat text.size state.2 = last := hscan.extend_eq (by omega)
  simp only [step, hread, Option.getD_some, hlen]

end CommonPrefix

/-- The state in which position `i` is to be replaced next. -/
structure Progress (text sa : List Nat) (i : Nat) (state : PackedVector × Nat) : Prop where
  housed : state.1.Housed
  measures : state.1.width.Measures text.length
  length_eq : state.1.values.length = text.length
  entry_eq : ∀ r, r < text.length → state.1.values[sa.getD r 0]? =
    some (if sa.getD r 0 < i then lcpAt text sa r else entry text sa .phi r)
  carried_le : ∀ r, r < text.length → 0 < r → sa.getD r 0 = i → state.2 ≤ lcpAt text sa r

/-- The phi array is the state before the first position. -/
theorem progress_start {text sa : List Nat} {v : PackedVector} (hv : v.Holds text sa .phi)
    (hm : v.width.Measures text.length) : Progress text sa 0 (v, 0) where
  housed := hv.housed
  measures := hm
  length_eq := hv.right.length_eq
  entry_eq r hr := hv.right.entry_eq r hr
  carried_le _ _ _ _ := Nat.zero_le _

/-- The scan at a position finds the common prefix length of its rank. -/
theorem Progress.exists_scan (hend : EndsWithLeast (SuffixArray.codes text))
    (hsa : Sorts (SuffixArray.codes text) sa) {i : Nat} (hi : i < text.size - 1)
    {state : PackedVector × Nat} (h : Progress (SuffixArray.codes text) sa i state) :
    ∃ r x, r < (SuffixArray.codes text).length ∧ 0 < r ∧ sa.getD r 0 = i ∧
      lcpAt (SuffixArray.codes text) sa r < text.size ∧ state.1.get? i = some x ∧
      CommonPrefix.Scans text i x.toNat state.2 (lcpAt (SuffixArray.codes text) sa r) := by
  have hcodes := SuffixArray.length_codes text
  obtain ⟨r, hr, hr0, hri⟩ := hsa.exists_pos_rank hend (hcodes ▸ hi)
  -- the entry that is read is the position of the suffix before
  obtain ⟨x, hread, hx⟩ : ∃ x, state.1.get? i = some x ∧ x.toNat = sa.getD (r - 1) 0 := by
    have hentry := h.entry_eq r hr
    rw [hri, if_neg (Nat.lt_irrefl i)] at hentry
    obtain ⟨x, hx, hxe⟩ := PackedVector.getElem?_values_eq_some.1 hentry
    refine ⟨x, by rwa [PackedVector.get?_eq], ?_⟩
    rw [hxe]
    show sa.getD (rankBefore _ r) 0 = _
    rw [rankBefore, if_neg (Nat.ne_of_gt hr0)]
  refine ⟨r, x, hr, hr0, hri, hcodes ▸ hsa.lcpAt_lt hr, hread, ?_⟩
  have hlcp : lcpAt (SuffixArray.codes text) sa r =
      commonPrefix ((SuffixArray.codes text).drop i)
        ((SuffixArray.codes text).drop (sa.getD (r - 1) 0)) := by
    rw [lcpAt, if_neg (Nat.ne_of_gt hr0), hri, commonPrefix_comm]
  have hcarried := h.carried_le r hr hr0 hri
  have hbefore : r - 1 < (SuffixArray.codes text).length := by omega
  rw [hlcp] at hcarried ⊢
  rw [hx]
  apply CommonPrefix.scans_commonPrefix hend _ _ _ hcarried
  · omega
  · exact hcodes ▸ hsa.getD_lt hbefore
  · intro hsame
    have := (hsa.getD_inj hr hbefore).1 (hri.trans hsame)
    omega

/-- Replacing an element, whichever it is. -/
theorem Progress.values_set {text sa : List Nat} {i j : Nat} {state : PackedVector × Nat}
    (h : Progress text sa i state) {value : UInt64} {v : PackedVector}
    (hset : state.1.set j value = .ok v) :
    v.Housed ∧ v.values = state.1.values.set j value.toNat := by
  refine PackedVector.values_set h.housed ?_ hset
  rw [← state.1.length_values, h.length_eq]
  exact h.measures

/-- Replacing one position. -/
theorem Progress.step (hend : EndsWithLeast (SuffixArray.codes text))
    (hsa : Sorts (SuffixArray.codes text) sa) {i : Nat} (hi : i < text.size - 1)
    {state state' : PackedVector × Nat}
    (h : Progress (SuffixArray.codes text) sa i state)
    (hstep : CommonPrefix.step text state i = .ok state') :
    Progress (SuffixArray.codes text) sa (i + 1) state' ∧
      CommonPrefix.Replaces text [i] state state' := by
  have hcodes := SuffixArray.length_codes text
  obtain ⟨r, x, hr, hr0, hri, hshort, hread, hscan⟩ := h.exists_scan hend hsa hi
  rw [CommonPrefix.step_eq hread hscan (Nat.le_of_lt hshort)] at hstep
  obtain ⟨v, len⟩ := state
  obtain ⟨v', hset, hstate⟩ := bind_eq_ok.1 hstep
  injection hstate with hstate
  subst hstate
  refine ⟨?_, .cons hread hscan hset .nil⟩
  obtain ⟨hhoused, hvalues⟩ := h.values_set hset
  rw [toNat_toUInt64_of_lt (hcodes ▸ h.measures.lt_size) hshort] at hvalues
  refine ⟨hhoused, ?_, ?_, ?_, ?_⟩
  · show v'.width.Measures _
    rw [(PackedVector.shape_set hset).2.1]
    exact h.measures
  · rw [hvalues, List.length_set]
    exact h.length_eq
  · intro s hs
    show v'.values[sa.getD s 0]? = _
    rw [hvalues, ← hri]
    by_cases hsr : s = r
    · subst hsr
      rw [List.getElem?_set_self (by rw [h.length_eq]; exact hsa.getD_lt hs),
        if_pos (Nat.lt_succ_self _)]
    · have hne : sa.getD s 0 ≠ sa.getD r 0 := fun heq => hsr ((hsa.getD_inj hs hr).1 heq)
      rw [List.getElem?_set_ne (Ne.symm hne), h.entry_eq s hs, ← hri]
      have hiff : sa.getD s 0 < sa.getD r 0 ↔ sa.getD s 0 < sa.getD r 0 + 1 := by omega
      rw [if_congr hiff rfl rfl]
  · intro s hs hs0 hsi
    have hfall := hsa.lcpAt_le_succ hr hs hr0 hs0 (by rw [hsi, hri])
    show lcpAt _ sa r - 1 ≤ _
    omega

/-- All positions but the last are replaced in turn, and then the last. -/
theorem exists_replaced (hend : EndsWithLeast (SuffixArray.codes text))
    (hsa : Sorts (SuffixArray.codes text) sa) {v v' : PackedVector}
    (hm : v.width.Measures text.size) (hv : v.Holds (SuffixArray.codes text) sa .phi)
    (h : CommonPrefix.plcp text v = .ok v') :
    ∃ done, Progress (SuffixArray.codes text) sa (text.size - 1) done ∧
      CommonPrefix.Replaces text (List.range (text.size - 1)) (v, 0) done ∧
      done.1.set (text.size - 1) 0 = .ok v' := by
  have hpos : 0 < text.size := SuffixArray.length_codes text ▸ hend.length_pos
  obtain ⟨done, hdone, hlastly⟩ := bind_eq_ok.1 h
  rw [if_neg (Nat.ne_of_gt hpos)] at hlastly
  have hstart : Progress (SuffixArray.codes text) sa 0 (v, 0) :=
    progress_start hv (by rwa [SuffixArray.length_codes])
  have hinvariant := foldlM_ok (fun before state =>
      Progress (SuffixArray.codes text) sa before.length state ∧
        CommonPrefix.Replaces text before (v, 0) state) ⟨hstart, .nil⟩ (by
    rintro before i after state state' hsplit ⟨hstate, hreplaced⟩ hstep
    obtain ⟨hlength, hi⟩ := length_eq_of_range_eq hsplit
    rw [hlength] at hstate
    obtain ⟨hnext, hreplaces⟩ := hstate.step hend hsa hi hstep
    rw [List.length_append, List.length_singleton, hlength]
    exact ⟨hnext, hreplaced.append hreplaces⟩) hdone
  rw [List.length_range] at hinvariant
  exact ⟨done, hinvariant.1, hinvariant.2, hlastly⟩

/-- Making the permuted prefix array from the phi array. -/
theorem holds_plcp (hend : EndsWithLeast (SuffixArray.codes text))
    (hsa : Sorts (SuffixArray.codes text) sa) {v v' : PackedVector}
    (hm : v.width.Measures text.size) (hv : v.Holds (SuffixArray.codes text) sa .phi)
    (h : CommonPrefix.plcp text v = .ok v') :
    v'.Holds (SuffixArray.codes text) sa .plcp := by
  have hcodes := SuffixArray.length_codes text
  have hpos : 0 < text.size := hcodes ▸ hend.length_pos
  obtain ⟨done, hprogress, -, hlastly⟩ := exists_replaced hend hsa hm hv h
  obtain ⟨hhoused, hvalues⟩ := hprogress.values_set hlastly
  refine ⟨hhoused, ⟨?_, ?_⟩⟩
  · rw [hvalues, List.length_set]
    exact hprogress.length_eq
  · intro r hr
    show v'.values[sa.getD r 0]? = some (lcpAt _ sa r)
    have hlast := hsa.getD_zero hend
    have hlt := hsa.getD_lt hr
    rw [hvalues, ← hcodes, ← hlast]
    by_cases hr0 : r = 0
    · subst hr0
      rw [List.getElem?_set_self (by rw [hprogress.length_eq]; exact hlt)]
      rfl
    · have hne : sa.getD r 0 ≠ sa.getD 0 0 := fun heq =>
        hr0 ((hsa.getD_inj hr (by omega)).1 heq)
      rw [List.getElem?_set_ne (Ne.symm hne), hprogress.entry_eq r hr, if_pos (by omega)]

end TextIndex
