import TextIndex.Proofs.Packed.Resize

/-!
# Changing the width in place

Moving every element to another width reads and writes the same words. What makes this safe is the
direction: going forward to a narrower width, the field that is written ends before the fields that
are still to be read begin, and going backward to a wider one it begins after they end. The list of
elements is the same afterwards (`repacked_repack`), provided that each fits the new width, and a tidy
vector stays tidy.
-/

set_option autoImplicit false

namespace TextIndex.PackedVector

/-! ## Moving the elements -/

/-- Moving a field writes what was read at the other width. -/
@[simp] theorem words_moveField (source target : Width) (v : PackedVector) (i : Nat) :
    (moveField source target v i).buffer.words =
      Field.write v.buffer.words target i (Field.read v.buffer.words source i) := rfl

/-- A part of the elements moved to another width, in words of the same number: those below `bound`
or those from it on, as `moved` says; the others are untouched. -/
structure Moved (v : PackedVector) (w : Width) (moved : Nat → Prop) (u : PackedVector) : Prop where
  length_eq : u.length = v.length
  size_eq : u.buffer.words.size = v.buffer.words.size
  done : ∀ j, j < v.length → moved j → Field.read u.buffer.words w j = v.element j
  rest : ∀ j, j < v.length → ¬ moved j → Field.read u.buffer.words v.width j = v.element j
  /-- Bits behind the elements at their new width stay. -/
  tail : ∀ p, v.length * w.bits ≤ p → bitAt u.buffer.words p = bitAt v.buffer.words p

/-- Moving one more element, if its new place overlaps none that is done or still to be read. -/
theorem Moved.step {v u : PackedVector} {w : Width} {moved : Nat → Prop} (h : Moved v w moved u)
    {i : Nat} (hi : i < v.length) (hnew : ¬ moved i) (hm : w.Measures v.length)
    (hfits : w.Fits (v.element i))
    (hroom : Field.start w i + w.bits ≤ 64 * v.buffer.words.size)
    (hapart : ∀ j, j < v.length → ¬ moved j → j ≠ i →
      Field.start w i + w.bits ≤ Field.start v.width j ∨
        Field.start v.width j + v.width.bits ≤ Field.start w i) :
    Moved v w (fun j => moved j ∨ j = i) (moveField v.width w u i) where
  length_eq := h.length_eq
  size_eq := by rw [words_moveField, Field.size_write, h.size_eq]
  done j hj hmoved := by
    rw [words_moveField, h.rest i hi hnew]
    by_cases hji : j = i
    · subst hji
      exact Field.read_write_self (by rwa [h.size_eq]) hfits
    · rw [Field.read_write_of_ne hm (by rwa [h.size_eq]) hfits hi hj hji]
      exact h.done j hj (hmoved.resolve_right hji)
  rest j hj hmoved := by
    have hnot : ¬ moved j := fun hm => hmoved (Or.inl hm)
    have hji : j ≠ i := fun he => hmoved (Or.inr he)
    rw [words_moveField, h.rest i hi hnew,
      Field.read_write_of_disjoint (by rwa [h.size_eq]) hfits (hapart j hj hnot hji)]
    exact h.rest j hj hnot
  tail p hp := by
    have hfield := Field.end_le (w := w) hi
    rw [words_moveField, h.rest i hi hnew, Field.bitAt_write (by rwa [h.size_eq]) hfits,
      if_neg (by omega)]
    exact h.tail p hp

/-- Only which elements have been moved matters. -/
theorem Moved.congr {v u : PackedVector} {w : Width} {moved moved' : Nat → Prop}
    (h : Moved v w moved u) (hiff : ∀ j, moved' j ↔ moved j) : Moved v w moved' u where
  length_eq := h.length_eq
  size_eq := h.size_eq
  done j hj hm := h.done j hj ((hiff j).1 hm)
  rest j hj hm := h.rest j hj fun hm' => hm ((hiff j).2 hm')
  tail := h.tail

/-- Going forward to a narrower width. -/
theorem moved_forward {v : PackedVector} {w : Width} (hv : v.Housed)
    (hm : v.width.Measures v.length) (hle : w.bits ≤ v.width.bits)
    (hfits : ∀ i, i < v.length → w.Fits (v.element i)) (k : Nat) (hk : k ≤ v.length) :
    Moved v w (· < k) ((List.range k).foldl (moveField v.width w) v) := by
  induction k with
  | zero =>
    exact ⟨rfl, rfl, fun j _ hm => absurd hm (Nat.not_lt_zero j), fun _ _ _ => rfl, fun _ _ => rfl⟩
  | succ k ih =>
    have hend : Field.start w k + w.bits ≤ v.length * v.width.bits :=
      Nat.le_trans (Field.end_le hk) (Nat.mul_le_mul_left _ hle)
    rw [List.range_succ, List.foldl_append]
    -- the new field ends before the old fields that are still to be read
    refine ((ih (by omega)).step hk (Nat.lt_irrefl k) (hm.narrow hle) (hfits k hk)
      (Nat.le_trans hend hv) fun j hj hrest hne => Or.inl ?_).congr fun j => by omega
    exact Field.end_le_start (hm.mono (Nat.le_of_lt hj)) (by omega) hle

/-- Going backward to a wider width. -/
theorem moved_backward {v : PackedVector} {w : Width}
    (hroom : v.length * w.bits ≤ 64 * v.buffer.words.size) (hm : w.Measures v.length)
    (hle : v.width.bits ≤ w.bits) (k : Nat) (hk : k ≤ v.length) {u : PackedVector}
    (hu : Moved v w (k ≤ ·) u) :
    Moved v w (fun _ => True)
      ((List.range k).foldr (fun i u => moveField v.width w u i) u) := by
  induction k generalizing u with
  | zero => exact hu.congr fun j => by simp
  | succ k ih =>
    have hend : Field.start w k + w.bits ≤ v.length * w.bits := Field.end_le hk
    rw [List.range_succ, List.foldr_append]
    -- the new field begins behind the old fields that are still to be read
    refine ih (by omega) ((hu.step hk (by omega) hm ?_ (Nat.le_trans hend hroom)
      fun j _ hj hne => Or.inr ?_).congr fun j => by omega)
    · exact Nat.lt_of_lt_of_le (Field.fits_read v.buffer.words v.width k)
        (Nat.pow_le_pow_right (by decide) hle)
    · exact Field.end_le_start (hm.mono (Nat.le_of_lt hk)) (by omega) hle

/-! ## The storage at the new width -/

/-- At another width the vector is housed and stands for the same list. -/
structure Repacked (v : PackedVector) (w : Width) (u : PackedVector) : Prop where
  width_eq : u.width = w
  housed : u.Housed
  toList_eq : u.toList = v.toList
  tidy : v.Tidy → u.Tidy

/-- Moving to a narrower width that holds all elements. -/
theorem repacked_narrow {v : PackedVector} {w : Width} (hv : v.Housed)
    (hold : v.width.Measures v.length) (hle : w.bits ≤ v.width.bits)
    (hfits : ∀ i, i < v.length → w.Fits (v.element i)) :
    Repacked v w (v.narrow w) := by
  have hm : w.Measures v.length := hold.narrow hle
  have hmoved := moved_forward hv hold hle hfits v.length (Nat.le_refl _)
  unfold narrow
  generalize (List.range v.length).foldl (moveField v.width w) v = moved at hmoved
  have hwords := Width.wordsFor_eq hm
  have hcutsize : (moved.buffer.truncate (w.wordsFor v.length)).words.size =
      (v.length * w.bits + 63) / 64 := by
    have hmin : (moved.buffer.truncate (w.wordsFor v.length)).words.size =
        min (w.wordsFor v.length) moved.buffer.words.size := moved.buffer.size_truncate _
    have hshort : v.length * w.bits ≤ v.length * v.width.bits := Nat.mul_le_mul_left _ hle
    have hroom : v.length * v.width.bits ≤ 64 * v.buffer.words.size := hv
    have hsize := hmoved.size_eq
    omega
  let cut : PackedVector := ⟨moved.buffer.truncate (w.wordsFor v.length), v.length, w⟩
  have htidy : cut.clearTail.Tidy := tidy_clearTail hm hcutsize
  have hlength : cut.clearTail.length = v.length := length_clearTail cut
  refine ⟨width_clearTail cut, htidy.housed, toList_eq_of_element hlength ?_, fun _ => htidy⟩
  intro i hi
  rw [← hmoved.done i hi hi]
  refine (element_clearTail (v := cut) hm hcutsize hi).trans ?_
  apply Field.read_of_bits hi
  intro p hp
  have hp : p < v.length * w.bits := hp
  rw [Buffer.bitAt_truncate, decide_eq_true (by omega), Bool.true_and]

/-- Moving to a wider width. -/
theorem repacked_widen {v : PackedVector} {w : Width} (hm : w.Measures v.length)
    (hle : v.width.bits ≤ w.bits) : Repacked v w (v.widen w) := by
  have hwords := Width.wordsFor_eq hm
  have hsize : (v.buffer.resize (w.wordsFor v.length)).words.size = w.wordsFor v.length :=
    Buffer.size_resize ..
  have hshort : v.length * v.width.bits ≤ v.length * w.bits := Nat.mul_le_mul_left _ hle
  -- more or fewer words, but all that the elements need
  have hsame : ∀ i, i < v.length →
      Field.read (v.buffer.resize (w.wordsFor v.length)).words v.width i = v.element i := by
    intro i hi
    apply Field.read_of_bits hi
    intro p hp
    rw [Buffer.bitAt_resize, decide_eq_true (by omega), Bool.true_and]
  have hmoved := moved_backward
    (v := { v with buffer := v.buffer.resize (w.wordsFor v.length) })
    (by rw [hsize]; exact w.mul_bits_le_wordsFor hm) hm hle v.length (Nat.le_refl _)
    ⟨rfl, rfl, fun j hj hge => absurd hge (Nat.not_le.2 hj), fun _ _ _ => rfl, fun _ _ => rfl⟩
  have hlength : (v.widen w).length = v.length := hmoved.length_eq
  have hnew : (v.widen w).buffer.words.size = w.wordsFor v.length := hmoved.size_eq.trans hsize
  refine ⟨rfl, ?_, toList_eq_of_element hlength fun i hi =>
    (hmoved.done i hi trivial).trans (hsame i hi), fun htidy => ⟨?_, fun p hp => ?_⟩⟩
  · show (v.widen w).length * w.bits ≤ 64 * (v.widen w).buffer.words.size
    rw [hlength, hnew]
    exact w.mul_bits_le_wordsFor hm
  · show (v.widen w).buffer.words.size = ((v.widen w).length * w.bits + 63) / 64
    rw [hlength, hnew, hwords]
  · have hp : (v.widen w).length * w.bits ≤ p := hp
    rw [hlength] at hp
    refine (hmoved.tail p hp).trans ?_
    rw [Buffer.bitAt_resize, htidy.tail p (Nat.le_trans hshort hp), Bool.and_false]

/-! ## The operations -/

/-- No element is larger than the largest. -/
theorem le_maxValue (v : PackedVector) {x : UInt64} (hx : x ∈ v.toList) :
    x.toNat ≤ v.maxValue.toNat :=
  (le_foldl_max (fun _ _ => UInt64.le_iff_toNat_le) v.toList 0).2 x hx

/-- The largest element is one of the elements, or zero. -/
theorem maxValue_eq_zero_or_mem (v : PackedVector) : v.maxValue = 0 ∨ v.maxValue ∈ v.toList :=
  foldl_max_eq_or_mem v.toList 0

/-- A width that holds the largest element holds every one. -/
theorem fits_element {v : PackedVector} {w : Width} (h : w.Fits v.maxValue) {i : Nat}
    (hi : i < v.length) : w.Fits (v.element i) := by
  have hmem : v.element i ∈ v.toList := List.mem_map.2 ⟨i, List.mem_range.2 hi, rfl⟩
  exact Nat.lt_of_le_of_lt (v.le_maxValue hmem) h

/-- Whether the elements fit or not, their number is the same at the new width. -/
theorem shape_repack (v : PackedVector) (w : Width) :
    (v.repack w).length = v.length ∧ (v.repack w).width = w := by
  unfold repack
  split
  · next heq => exact ⟨rfl, heq.symm⟩
  · split
    · exact ⟨length_clearTail _, width_clearTail _⟩
    · refine ⟨?_, rfl⟩
      suffices h : ∀ (places : List Nat) (u : PackedVector),
          (places.foldr (fun i u => moveField v.width w u i) u).length = u.length from h _ _
      intro places u
      induction places with
      | nil => rfl
      | cons i rest ih => exact ih

/-- Moving to a width that holds all elements. -/
theorem repacked_repack {v : PackedVector} {w : Width} (hv : v.Housed)
    (hold : v.width.Measures v.length) (hm : w.Measures v.length)
    (hfits : w.bits < v.width.bits → w.Fits v.maxValue) : Repacked v w (v.repack w) := by
  unfold repack
  split
  · next heq => exact ⟨heq.symm, hv, rfl, id⟩
  · split
    · next hlt =>
      exact repacked_narrow hv hold (Nat.le_of_lt hlt) fun i hi => fits_element (hfits hlt) hi
    · next hge => exact repacked_widen hm (Nat.not_lt.1 hge)

/-- Changing the width keeps the list, when it is not refused. -/
theorem repacked_setWidth {v v' : PackedVector} {w : Width} (hv : v.Housed)
    (hold : v.width.Measures v.length) (hm : w.Measures v.length) (h : v.setWidth w = .ok v') :
    Repacked v w v' := by
  unfold setWidth at h
  split at h
  · next hlt =>
    obtain ⟨u, hcheck, hend⟩ := bind_eq_ok.1 h
    injection hend with hend
    subst hend
    exact repacked_repack hv hold hm fun _ => Width.check_eq_ok_iff.1 hcheck
  · next hge =>
    injection h with h
    subst h
    exact repacked_repack hv hold hm fun hlt => absurd hlt hge

/-- The largest of elements that fit a width fits it. -/
theorem fits_maxValue {v : PackedVector} {w : Width} (h : ∀ x ∈ v.toList, w.Fits x) :
    w.Fits v.maxValue := by
  rcases v.maxValue_eq_zero_or_mem with hzero | hmem
  · rw [hzero]
    exact Nat.two_pow_pos w.bits
  · exact h _ hmem

/-- Every element fits the width of the elements. -/
theorem fits_of_mem {v : PackedVector} {x : UInt64} (hx : x ∈ v.toList) : v.width.Fits x := by
  obtain ⟨i, -, rfl⟩ := List.mem_map.1 hx
  exact Field.fits_read ..

/-- `setWidth` accepts exactly the widths that hold every element; otherwise it names the largest. -/
theorem setWidth_of_fits {v : PackedVector} {w : Width} (h : ∀ x ∈ v.toList, w.Fits x) :
    v.setWidth w = .ok (v.repack w) := by
  have hmax : w.Fits v.maxValue := fits_maxValue h
  unfold setWidth
  rw [Width.check_of_fits hmax]
  split <;> rfl

/-- A width that is too narrow is refused for the sake of the largest element. -/
theorem setWidth_of_not_fits {v : PackedVector} {w : Width} (h : ¬ ∀ x ∈ v.toList, w.Fits x) :
    v.setWidth w = .error (.valueTooWide v.maxValue w.bits) := by
  have hlt : w.bits < v.width.bits := by
    by_contra hge
    apply h
    intro x hx
    exact Nat.lt_of_lt_of_le (fits_of_mem hx)
      (Nat.pow_le_pow_right (by decide) (Nat.not_lt.1 hge))
  have hmax : ¬ w.Fits v.maxValue := fun hmax => h fun x hx =>
    Nat.lt_of_le_of_lt (v.le_maxValue hx) hmax
  unfold setWidth
  rw [if_pos hlt, Width.check_of_not_fits hmax]
  rfl

/-- The least width of a value is no wider than one that holds it. -/
theorem bits_least_le {w : Width} {x : UInt64} (h : w.Fits x) : (Width.least x).bits ≤ w.bits := by
  have hpos := w.one_le
  show x.toNat.log2 + 1 ≤ w.bits
  by_cases hx : x.toNat = 0
  · rw [hx, Nat.log2_zero]
    exact hpos
  · exact (Nat.log2_lt hx).2 h

/-- Compressing keeps the list. -/
theorem repacked_bitCompress {v : PackedVector} (hv : v.Housed)
    (hm : v.width.Measures v.length) : Repacked v (.least v.maxValue) v.bitCompress := by
  have hle : (Width.least v.maxValue).bits ≤ v.width.bits :=
    bits_least_le (fits_maxValue fun _ hx => fits_of_mem hx)
  obtain ⟨hwidth, hhoused, hlist, htidy⟩ :=
    repacked_repack hv hm (hm.narrow hle) fun _ => Width.fits_least v.maxValue
  exact ⟨hwidth, hhoused, hlist, fun h => ⟨(htidy h).size_eq, (htidy h).tail⟩⟩

end TextIndex.PackedVector
