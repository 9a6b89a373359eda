import TextIndex.Proofs.Structure.Suffixes
import TextIndex.Structure.Kind

/-!
# What the structures hold

Given the suffix array of a text, every other structure is determined entry by entry: `entry` is the
entry that belongs to the suffix of rank `r`, and `place` is where it stands, at the rank itself or at
the position of the suffix. `Right` says that a list is the structure of a kind.

The lengths of common prefixes are related by two facts on which their computation in text order rests:
a suffix that lies between two others in the order agrees with the greater one at least as far as
the smaller one does (`commonPrefix_between`), and from one position to the next the length falls by
at most one (`lcpAt_le_succ`).
-/

set_option autoImplicit false

namespace TextIndex

/-- How many members two lists have in common at the front. -/
def commonPrefix : List Nat → List Nat → Nat
  | x :: xs, y :: ys => if x = y then commonPrefix xs ys + 1 else 0
  | _, _ => 0

/-- Nothing is common with an empty list. -/
@[simp] theorem commonPrefix_nil_left (b : List Nat) : commonPrefix [] b = 0 := by
  cases b <;> rfl

/-- Nothing is common with an empty list on the other side. -/
@[simp] theorem commonPrefix_nil_right (a : List Nat) : commonPrefix a [] = 0 := by
  cases a <;> rfl

/-- A common prefix goes on as long as the members are the same. -/
@[simp] theorem commonPrefix_cons (x y : Nat) (xs ys : List Nat) :
    commonPrefix (x :: xs) (y :: ys) = if x = y then commonPrefix xs ys + 1 else 0 := rfl

/-- The lists agree in one more member exactly when both have it and it is the same. -/
theorem lt_commonPrefix_iff {a b : List Nat} {m : Nat} (h : m ≤ commonPrefix a b) :
    m < commonPrefix a b ↔ ∃ x, a[m]? = some x ∧ b[m]? = some x := by
  induction a generalizing b m with
  | nil => simp
  | cons x xs ih =>
    cases b with
    | nil => simp
    | cons y ys =>
      rw [commonPrefix_cons] at h ⊢
      cases m with
      | zero =>
        by_cases hxy : x = y
        · simp [hxy]
        · simp [hxy, Ne.symm hxy]
      | succ m =>
        split at h
        · next hxy =>
          rw [if_pos hxy]
          simpa using ih (by omega : m ≤ commonPrefix xs ys)
        · omega

/-- What is common is no longer than the list. -/
theorem commonPrefix_le_length (a b : List Nat) : commonPrefix a b ≤ a.length := by
  induction a generalizing b with
  | nil => simp
  | cons x xs ih =>
    cases b with
    | nil => simp
    | cons y ys =>
      rw [commonPrefix_cons]
      have hle := ih ys
      split
      · rw [List.length_cons]; omega
      · omega

/-- It does not matter which list comes first. -/
theorem commonPrefix_comm (a b : List Nat) : commonPrefix a b = commonPrefix b a := by
  induction a generalizing b with
  | nil => cases b <;> rfl
  | cons x xs ih =>
    cases b with
    | nil => rfl
    | cons y ys =>
      rw [commonPrefix_cons, commonPrefix_cons, ih ys]
      by_cases hxy : x = y
      · simp [hxy]
      · simp [hxy, Ne.symm hxy]

/-- Suffixes of a text that ends with its least member stop agreeing before either of them ends: only the
shorter one has this member where they would have to agree. -/
theorem EndsWithLeast.add_commonPrefix_lt {text : List Nat} (hend : EndsWithLeast text) {i j : Nat}
    (hi : i < text.length) (hj : j < text.length) (hij : i ≠ j) :
    i + commonPrefix (text.drop i) (text.drop j) < text.length := by
  obtain ⟨front, last, htext, hleast⟩ := hend
  have hlength : text.length = front.length + 1 := by rw [htext]; simp
  have hleft := commonPrefix_le_length (text.drop i) (text.drop j)
  have hright := commonPrefix_le_length (text.drop j) (text.drop i)
  rw [commonPrefix_comm] at hright
  rw [List.length_drop] at hleft hright
  by_contra hlong
  have hlast : front.length - i < commonPrefix (text.drop i) (text.drop j) := by omega
  obtain ⟨x, hx, hy⟩ := (lt_commonPrefix_iff (Nat.le_of_lt hlast)).1 hlast
  rw [List.getElem?_drop, htext] at hx hy
  rw [show i + (front.length - i) = front.length by omega, List.getElem?_concat_length] at hx
  rw [List.getElem?_append_left (by omega)] at hy
  have hless := hleast x (List.mem_of_getElem? hy)
  injection hx with hx
  omega

/-- A list between two others agrees with the greater at least as far as the smaller one does. -/
theorem commonPrefix_between {a b c : List Nat} (hab : a ≤ b) (hbc : b < c) :
    commonPrefix a c ≤ commonPrefix b c := by
  induction a generalizing b c with
  | nil => simp
  | cons x xs ih =>
    cases c with
    | nil => exact absurd hbc (List.not_lt_nil b)
    | cons z zs =>
      cases b with
      | nil => exact absurd hab (not_le_of_gt (List.nil_lt_cons x xs))
      | cons y ys =>
        have hxy : x < y ∨ x = y ∧ xs ≤ ys := by
          rcases lt_or_eq_of_le hab with hlt | heq
          · exact (List.cons_lt_cons_iff.1 hlt).imp_right fun h => ⟨h.1, le_of_lt h.2⟩
          · injection heq with hx hxs
            exact Or.inr ⟨hx, le_of_eq hxs⟩
        have hyz := List.cons_lt_cons_iff.1 hbc
        rw [commonPrefix_cons, commonPrefix_cons]
        split
        · next hxz =>
          obtain ⟨hx, hxs⟩ : x = y ∧ xs ≤ ys := hxy.resolve_left fun hlt => by omega
          obtain ⟨hy, hys⟩ : y = z ∧ ys < zs := hyz.resolve_left fun hlt => by omega
          rw [if_pos hy]
          exact Nat.succ_le_succ (ih hxs hys)
        · omega

/-! ## Entries -/

section Entries

variable (text sa : List Nat)

/-- The rank before `r`; the first rank takes the last. -/
def rankBefore (r : Nat) : Nat := if r = 0 then text.length - 1 else r - 1

/-- How far the suffix of rank `r` agrees with the one before it; the first has none before it. -/
def lcpAt (r : Nat) : Nat :=
  if r = 0 then 0
  else commonPrefix (text.drop (sa.getD (r - 1) 0)) (text.drop (sa.getD r 0))

/-- The member before position `i`, on the circle. -/
def memberBefore (i : Nat) : Nat := text.getD (if i = 0 then text.length - 1 else i - 1) 0

/-- What a structure holds for the suffix of rank `r`. -/
def entry : Kind → Nat → Nat
  | .suffixArray, r => sa.getD r 0
  | .inverse, r => r
  | .phi, r => sa.getD (rankBefore text r) 0
  | .plcp, r => lcpAt text sa r
  | .lcp, r => lcpAt text sa r
  | .bwt, r => memberBefore text (sa.getD r 0)

/-- Where a structure holds it: by rank, or by position. -/
def place : Kind → Nat → Nat
  | .suffixArray, r | .lcp, r | .bwt, r => r
  | .inverse, r | .phi, r | .plcp, r => sa.getD r 0

/-- The list is the structure of a kind: it has an entry for every suffix. -/
structure Right (k : Kind) (l : List Nat) : Prop where
  length_eq : l.length = text.length
  entry_eq : ∀ r, r < text.length → l[place sa k r]? = some (entry text sa k r)

end Entries

namespace Sorts

variable {text sa : List Nat}

/-- At every rank stands a position of the text. -/
theorem getD_lt (h : Sorts text sa) {r : Nat} (hr : r < text.length) :
    sa.getD r 0 < text.length := by
  rw [← h.length_eq] at hr
  rw [List.getD_eq_getElem _ _ hr]
  exact h.getElem_lt hr

/-- Different ranks have different positions. -/
theorem getD_inj (h : Sorts text sa) {r s : Nat} (hr : r < text.length) (hs : s < text.length) :
    sa.getD r 0 = sa.getD s 0 ↔ r = s := by
  rw [← h.length_eq] at hr hs
  rw [List.getD_eq_getElem _ _ hr, List.getD_eq_getElem _ _ hs]
  exact h.nodup.getElem_inj_iff

/-- Every position of the text has a rank. -/
theorem exists_getD (h : Sorts text sa) {i : Nat} (hi : i < text.length) :
    ∃ r, r < text.length ∧ sa.getD r 0 = i := by
  obtain ⟨r, hr, hri⟩ := h.exists_rank hi
  exact ⟨r, by rwa [← h.length_eq], by rw [List.getD_eq_getElem _ _ hr, hri]⟩

/-- A lesser rank has the lesser suffix. -/
theorem drop_getD_lt (h : Sorts text sa) {r s : Nat} (hrs : r < s) (hs : s < text.length) :
    text.drop (sa.getD r 0) < text.drop (sa.getD s 0) := by
  rw [← h.length_eq] at hs
  have hr := Nat.lt_trans hrs hs
  rw [List.getD_eq_getElem _ _ hr, List.getD_eq_getElem _ _ hs]
  exact h.drop_lt hr hs hrs

/-- A lesser suffix has the lesser rank. -/
theorem lt_of_drop_getD_lt (h : Sorts text sa) {r s : Nat} (hr : r < text.length)
    (hs : s < text.length) (hlt : text.drop (sa.getD r 0) < text.drop (sa.getD s 0)) : r < s := by
  rw [← h.length_eq] at hr hs
  rw [List.getD_eq_getElem _ _ hr, List.getD_eq_getElem _ _ hs] at hlt
  exact h.rank_lt hr hs hlt

/-- A text that ends with its least member has its last suffix first. -/
theorem getD_zero (h : Sorts text sa) (hend : EndsWithLeast text) :
    sa.getD 0 0 = text.length - 1 := by
  obtain ⟨front, last, htext, hleast⟩ := hend
  have hlength : text.length = front.length + 1 := by rw [htext]; simp
  obtain ⟨r, hr, hrlast⟩ := h.exists_getD (i := text.length - 1) (by omega)
  rcases Nat.eq_zero_or_pos r with rfl | hpos
  · exact hrlast
  · -- nothing is smaller than the suffix that consists of the least member alone
    have hlast : text.drop (text.length - 1) = [last] := by
      rw [hlength, htext]
      simp
    have hlt := h.drop_getD_lt hpos hr
    have hfirst := h.getD_lt (Nat.lt_trans hpos hr)
    have hmem := List.getElem_mem hfirst
    rw [hrlast, hlast, List.drop_eq_getElem_cons hfirst, List.cons_lt_cons_iff] at hlt
    generalize text[sa.getD 0 0] = x at hlt hmem
    rw [htext, List.mem_append, List.mem_singleton] at hmem
    rcases hmem with hmem | rfl
    · have := hleast x hmem
      simp at hlt
      omega
    · simp at hlt

/-- Every position but the last has a rank behind the first. -/
theorem exists_pos_rank (h : Sorts text sa) (hend : EndsWithLeast text) {i : Nat}
    (hi : i < text.length - 1) : ∃ r, r < text.length ∧ 0 < r ∧ sa.getD r 0 = i := by
  obtain ⟨r, hr, hri⟩ := h.exists_getD (i := i) (by omega)
  refine ⟨r, hr, Nat.pos_of_ne_zero ?_, hri⟩
  rintro rfl
  have hlast := h.getD_zero hend
  omega

/-- Neighbouring suffixes have less in common than the whole text. -/
theorem lcpAt_lt (h : Sorts text sa) {r : Nat} (hr : r < text.length) :
    lcpAt text sa r < text.length := by
  unfold lcpAt
  split
  · exact Nat.lt_of_le_of_lt (Nat.zero_le r) hr
  · next hr0 =>
    have hne : sa.getD (r - 1) 0 ≠ sa.getD r 0 := fun heq => by
      have := (h.getD_inj (by omega) hr).1 heq
      omega
    -- not both of them start at the first position
    have hle := commonPrefix_le_length (text.drop (sa.getD (r - 1) 0)) (text.drop (sa.getD r 0))
    have hle' := commonPrefix_le_length (text.drop (sa.getD r 0)) (text.drop (sa.getD (r - 1) 0))
    rw [commonPrefix_comm] at hle'
    rw [List.length_drop] at hle hle'
    omega

/-- From one position to the next the common prefix with the suffix before falls by at most one. -/
theorem lcpAt_le_succ (h : Sorts text sa) {r s : Nat} (hr : r < text.length) (hs : s < text.length)
    (hr0 : 0 < r) (hs0 : 0 < s) (hnext : sa.getD s 0 = sa.getD r 0 + 1) :
    lcpAt text sa r ≤ lcpAt text sa s + 1 := by
  unfold lcpAt
  rw [if_neg (Nat.ne_of_gt hr0), if_neg (Nat.ne_of_gt hs0), hnext]
  have hprev : r - 1 < text.length := by omega
  have hlt := h.drop_getD_lt (Nat.sub_lt hr0 Nat.one_pos) hr
  have hj := h.getD_lt hprev
  have hi := h.getD_lt hr
  have hi' := h.getD_lt hs
  rw [hnext] at hi'
  generalize sa.getD (r - 1) 0 = j at hlt hj ⊢
  rw [List.drop_eq_getElem_cons hj, List.drop_eq_getElem_cons hi] at hlt ⊢
  rw [List.cons_lt_cons_iff] at hlt
  rw [commonPrefix_cons]
  split
  case isFalse => omega
  case isTrue hsame =>
    apply Nat.succ_le_succ
    have hlt := (hlt.resolve_left (by omega)).2
    by_cases hlast : j + 1 < text.length
    · -- the suffix behind the smaller one lies between two neighbours of the order
      obtain ⟨q, hq, hqj⟩ := h.exists_getD hlast
      rw [← hqj] at hlt ⊢
      rw [← hnext] at hlt ⊢
      have hqs := h.lt_of_drop_getD_lt hq hs hlt
      have hle : text.drop (sa.getD q 0) ≤ text.drop (sa.getD (s - 1) 0) := by
        rcases Nat.lt_or_ge q (s - 1) with hlt' | hge
        · exact le_of_lt (h.drop_getD_lt hlt' (by omega))
        · obtain rfl : q = s - 1 := by omega
          exact le_refl _
      exact commonPrefix_between hle (h.drop_getD_lt (Nat.sub_lt hs0 Nat.one_pos) hs)
    · rw [List.drop_eq_nil_of_le (Nat.not_lt.1 hlast)]
      simp

/-- Every place belongs to some rank. -/
theorem exists_place (h : Sorts text sa) (k : Kind) {i : Nat} (hi : i < text.length) :
    ∃ r, r < text.length ∧ place sa k r = i := by
  cases k with
  | suffixArray | lcp | bwt => exact ⟨i, hi, rfl⟩
  | inverse | phi | plcp => exact h.exists_getD hi

/-- What is stored are positions, ranks and lengths, and for the transform members of the text. -/
theorem entry_lt (h : Sorts text sa) {k : Kind} (hk : k ≠ .bwt) {r : Nat} (hr : r < text.length) :
    entry text sa k r < text.length := by
  cases k with
  | suffixArray => exact h.getD_lt hr
  | inverse => exact hr
  | phi =>
    apply h.getD_lt
    unfold rankBefore
    split <;> omega
  | plcp | lcp => exact h.lcpAt_lt hr
  | bwt => exact absurd rfl hk

/-- The last position is an entry of each array of positions. -/
theorem exists_last (h : Sorts text sa) (hend : EndsWithLeast text) {k : Kind}
    (hk : k.holdsPositions = true) : ∃ r, r < text.length ∧ entry text sa k r = text.length - 1 := by
  have hpos := hend.length_pos
  cases k with
  | suffixArray => exact ⟨0, hpos, h.getD_zero hend⟩
  | inverse => exact ⟨text.length - 1, Nat.sub_lt hpos Nat.one_pos, rfl⟩
  | phi =>
    -- the suffix behind the first one, on the circle of ranks
    obtain ⟨r, hr, hbefore⟩ : ∃ r, r < text.length ∧ rankBefore text r = 0 := by
      unfold rankBefore
      by_cases hone : text.length = 1
      · exact ⟨0, hpos, by simp [hone]⟩
      · exact ⟨1, by omega, by simp⟩
    refine ⟨r, hr, ?_⟩
    show sa.getD (rankBefore text r) 0 = _
    rw [hbefore, h.getD_zero hend]
  | plcp | lcp | bwt => cases hk

/-- Every member of a text stands before one of its suffixes. -/
theorem exists_memberBefore (h : Sorts text sa) {j : Nat} (hj : j < text.length) :
    ∃ r, r < text.length ∧ memberBefore text (sa.getD r 0) = text.getD j 0 := by
  unfold memberBefore
  by_cases hlast : j + 1 = text.length
  · obtain ⟨r, hr, hposition⟩ := h.exists_getD (Nat.lt_of_le_of_lt (Nat.zero_le j) hj)
    refine ⟨r, hr, ?_⟩
    rw [if_pos hposition, ← hlast]
    rfl
  · obtain ⟨r, hr, hposition⟩ := h.exists_getD (i := j + 1) (by omega)
    refine ⟨r, hr, ?_⟩
    rw [hposition]
    rfl

/-- The positions in order are what a suffix array holds. -/
theorem right (h : Sorts text sa) : Right text sa .suffixArray sa where
  length_eq := h.length_eq
  entry_eq r hr := by
    show sa[r]? = some (sa.getD r 0)
    rw [← h.length_eq] at hr
    rw [List.getD_eq_getElem _ _ hr, List.getElem?_eq_getElem]

end Sorts

/-- The structure of a kind is determined. -/
theorem Right.unique {text sa : List Nat} (h : Sorts text sa) {k : Kind} {l l' : List Nat}
    (hl : Right text sa k l) (hl' : Right text sa k l') : l = l' := by
  apply List.ext_getElem?
  intro i
  by_cases hi : i < text.length
  · obtain ⟨r, hr, rfl⟩ := h.exists_place k hi
    rw [hl.entry_eq r hr, hl'.entry_eq r hr]
  · rw [List.getElem?_eq_none (by rw [hl.length_eq]; omega),
      List.getElem?_eq_none (by rw [hl'.length_eq]; omega)]

end TextIndex
