import TextIndex.Packed.Vector
import TextIndex.Proofs.Loops
import TextIndex.Proofs.Packed.Bits

/-!
# Elements of a packed vector

A packed vector stands for the list of its elements, as long as all of them lie inside its words
(`PackedVector.Housed`). Building one element by element, and replacing elements, are then the
operations of lists. The number of words is measured with a 64-bit counter, so this holds for lengths
that the counter can measure at the width in question (`Width.Measures`).

A vector is tidy when it has no more words than its elements need and the bits past the last element
are zero (`PackedVector.Tidy`). Every operation keeps a vector tidy.
-/

set_option autoImplicit false

namespace TextIndex

/-- The storage counter does not overflow for `n` elements, whatever their width. It would for `2 ^ 58`
elements, which no address space has room for. -/
def Measurable (n : Nat) : Prop := n * 64 < UInt64.size

/-- A length that is measured at every width is a 64-bit number. -/
theorem Measurable.lt_size {n : Nat} (h : Measurable n) : n < UInt64.size := by
  unfold Measurable at h
  omega

/-- Positions below a 64-bit length survive being stored as 64-bit values. -/
theorem toNat_toUInt64_of_lt {i n : Nat} (hn : n < UInt64.size) (hi : i < n) :
    i.toUInt64.toNat = i :=
  UInt64.toNat_ofNat_of_lt' (Nat.lt_trans hi hn)

namespace Width

/-- The storage counter does not overflow for `n` elements of this width. -/
def Measures (w : Width) (n : Nat) : Prop := n * w.bits < UInt64.size

instance (w : Width) (n : Nat) : Decidable (w.Measures n) :=
  inferInstanceAs (Decidable (n * w.bits < UInt64.size))

/-- What the counter measures it measures of fewer elements too. -/
theorem Measures.mono {w : Width} {m n : Nat} (h : w.Measures n) (hmn : m ≤ n) : w.Measures m :=
  Nat.lt_of_le_of_lt (Nat.mul_le_mul_right _ hmn) h

/-- What the counter measures it measures at a lesser width too. -/
theorem Measures.narrow {v w : Width} {n : Nat} (h : v.Measures n) (hle : w.bits ≤ v.bits) :
    w.Measures n :=
  Nat.lt_of_le_of_lt (Nat.mul_le_mul_left n hle) h

/-- A length that the counter measures is a 64-bit number itself. -/
theorem Measures.lt_size {w : Width} {n : Nat} (h : w.Measures n) : n < UInt64.size :=
  Nat.lt_of_le_of_lt (Nat.le_mul_of_pos_right n w.one_le) h

/-- The words behind elements that the counter measures. -/
theorem wordsFor_eq {w : Width} {n : Nat} (h : w.Measures n) :
    w.wordsFor n = (n * w.bits + 63) / 64 := by
  unfold wordsFor
  rw [Nat.mod_eq_of_lt h]

/-- The elements lie inside the words reserved for them. -/
theorem mul_bits_le_wordsFor (w : Width) {n : Nat} (h : w.Measures n) :
    n * w.bits ≤ 64 * w.wordsFor n := by
  rw [wordsFor_eq h]
  omega

end Width

/-- A length that the counter measures at every width is measured at each. -/
theorem Measurable.measures {n : Nat} (h : Measurable n) (w : Width) : w.Measures n :=
  Nat.lt_of_le_of_lt (Nat.mul_le_mul_left n w.le_word) h

namespace Field

variable {words : Array UInt64} {w : Width} {i : Nat} {value : UInt64}

/-- A field starts no later than the exact product says, -/
theorem start_le (w : Width) (i : Nat) : start w i ≤ i * w.bits := Nat.mod_le ..

/-- and just there, where the counter measures what lies before it. -/
theorem start_eq (h : w.Measures i) : start w i = i * w.bits := Nat.mod_eq_of_lt h

/-- A field ends no later than the next one begins. -/
theorem end_le {n : Nat} (hi : i < n) : start w i + w.bits ≤ n * w.bits := by
  calc start w i + w.bits
      ≤ i * w.bits + w.bits := Nat.add_le_add_right (start_le w i) w.bits
    _ = (i + 1) * w.bits := (Nat.succ_mul ..).symm
    _ ≤ n * w.bits := Nat.mul_le_mul_right _ hi

/-- Of two fields that the counter measures, the one with the later index starts behind the other, if it
is as wide. -/
theorem end_le_start {w' : Width} {j : Nat} (hm : w'.Measures j) (hij : i < j)
    (hle : w.bits ≤ w'.bits) : start w i + w.bits ≤ start w' j := by
  rw [start_eq hm]
  exact Nat.le_trans (end_le hij) (Nat.mul_le_mul_left j hle)

/-- A value that fits is read back from where it was written. -/
theorem read_write_self (hroom : start w i + w.bits ≤ 64 * words.size) (hfits : w.Fits value) :
    read (write words w i value) w i = value := by
  apply eq_of_bit_eq
  intro j
  rw [bit_read, bitAt_write hroom hfits]
  by_cases hj : j < w.bits
  · simp [hj]
  · simp [hj, bit_of_fits hfits (Nat.not_lt.1 hj)]

/-- A field, of whatever width, that lies before or after the written one stays. -/
theorem read_write_of_disjoint {w' : Width} {j : Nat}
    (hroom : start w i + w.bits ≤ 64 * words.size) (hfits : w.Fits value)
    (hapart : start w i + w.bits ≤ start w' j ∨ start w' j + w'.bits ≤ start w i) :
    read (write words w i value) w' j = read words w' j := by
  apply read_congr rfl
  intro k hk
  rw [bitAt_write hroom hfits, if_neg (by omega)]

/-- Another field of the same width stays, if the counter tells the two apart. -/
theorem read_write_of_ne {n j : Nat} (hm : w.Measures n)
    (hroom : start w i + w.bits ≤ 64 * words.size) (hfits : w.Fits value) (hi : i < n) (hj : j < n)
    (hne : j ≠ i) : read (write words w i value) w j = read words w j := by
  apply read_write_of_disjoint hroom hfits
  rcases Nat.lt_or_gt_of_ne hne with h | h
  · exact Or.inr (end_le_start (hm.mono (Nat.le_of_lt hi)) h (Nat.le_refl _))
  · exact Or.inl (end_le_start (hm.mono (Nat.le_of_lt hj)) h (Nat.le_refl _))

/-- A field depends on the bits of the elements only. -/
theorem read_of_bits {words' : Array UInt64} {n : Nat} (hi : i < n)
    (h : ∀ p, p < n * w.bits → bitAt words' p = bitAt words p) :
    read words' w i = read words w i := by
  have hend := end_le (w := w) hi
  apply read_congr rfl
  intro j hj
  apply h
  omega

end Field

namespace Buffer

/-- Making room appends zero bits. -/
@[simp] theorem bitAt_extendTo (b : Buffer) (n p : Nat) :
    bitAt (b.extendTo n).words p = bitAt b.words p := by
  have hword : ∀ k, (b.extendTo n).words.getD k 0 = b.words.getD k 0 := by
    intro k
    simp only [extendTo, Array.getD_eq_getD_getElem?, Array.getElem?_append, Array.getElem?_replicate]
    split
    · rfl
    · next hk =>
      rw [Array.getElem?_eq_none (Nat.not_lt.1 hk)]
      split <;> rfl
  unfold bitAt
  rw [hword]

/-- A cut keeps the bits before it. -/
theorem bitAt_truncate (b : Buffer) (n p : Nat) :
    bitAt (b.truncate n).words p = (decide (p < 64 * n) && bitAt b.words p) := by
  unfold bitAt
  by_cases hp : p < 64 * n
  · have hk : p / 64 < n := by omega
    have hword : (b.truncate n).words.getD (p / 64) 0 = b.words.getD (p / 64) 0 := by
      simp only [truncate, Array.getD_eq_getD_getElem?, Array.getElem?_extract, Nat.sub_zero,
        Nat.zero_add]
      split
      · rfl
      · next hout => rw [Array.getElem?_eq_none (by omega)]
    rw [hword, decide_eq_true hp, Bool.true_and]
  · have hk : ¬ p / 64 < n := by omega
    have hword : (b.truncate n).words.getD (p / 64) 0 = 0 := by
      simp only [truncate, Array.getD_eq_getD_getElem?, Array.getElem?_extract, Nat.sub_zero]
      rw [if_neg (by omega)]
      rfl
    rw [hword, decide_eq_false hp, Bool.false_and]
    exact bit_zero _

/-- Resizing keeps the bits that stay, and the new ones are zero. -/
theorem bitAt_resize (b : Buffer) (n p : Nat) :
    bitAt (b.resize n).words p = (decide (p < 64 * n) && bitAt b.words p) := by
  unfold resize
  split
  · exact b.bitAt_truncate n p
  · next hmore =>
    rw [bitAt_extendTo]
    by_cases hp : p < 64 * n
    · rw [decide_eq_true hp, Bool.true_and]
    · rw [decide_eq_false hp, Bool.false_and]
      apply bitAt_of_le
      have hmore : ¬ n ≤ b.words.size := hmore
      omega

end Buffer

namespace PackedVector

/-- All elements lie inside the words. -/
def Housed (v : PackedVector) : Prop := v.length * v.width.bits ≤ 64 * v.buffer.size

/-- The field of an element lies inside the words. -/
theorem Housed.field_le {v : PackedVector} (h : v.Housed) {i : Nat} (hi : i < v.length) :
    Field.start v.width i + v.width.bits ≤ 64 * v.buffer.words.size :=
  Nat.le_trans (Field.end_le hi) h

/-- As many words as the elements need, and no bits past the last element. -/
structure Tidy (v : PackedVector) : Prop where
  size_eq : v.buffer.words.size = (v.length * v.width.bits + 63) / 64
  tail : ∀ p, v.length * v.width.bits ≤ p → bitAt v.buffer.words p = false

/-- A tidy vector has words for all its elements. -/
theorem Tidy.housed {v : PackedVector} (h : v.Tidy) : v.Housed := by
  have hsize := h.size_eq
  show v.length * v.width.bits ≤ 64 * v.buffer.words.size
  omega

/-- Lists of elements are compared position by position. -/
theorem toList_eq_of_element {v w : PackedVector} (hlength : v.length = w.length)
    (h : ∀ i, i < w.length → v.element i = w.element i) : v.toList = w.toList := by
  unfold toList
  rw [hlength]
  exact List.map_congr_left fun i hi => h i (List.mem_range.1 hi)

/-- The list of elements has at each place the element of that position. -/
theorem getElem_toList (v : PackedVector) (i : Nat) (hi : i < v.toList.length) :
    v.toList[i] = v.element i := by
  simp [toList]

/-- An element is looked up as in the list of elements. -/
theorem get?_eq (v : PackedVector) (i : Nat) : v.get? i = v.toList[i]? := (v.getElem?_toList i).symm

/-! ## Replacing an element -/

/-- What `set` returns: the list with the element replaced. -/
theorem toList_set {v v' : PackedVector} {i : Nat} {value : UInt64} (hv : v.Housed)
    (hm : v.width.Measures v.length) (h : v.set i value = .ok v') :
    v'.Housed ∧ v'.toList = v.toList.set i value := by
  unfold set at h
  split at h
  case isFalse => cases h
  case isTrue hi =>
    obtain ⟨u, hcheck, hend⟩ := bind_eq_ok.1 h
    injection hend with hend
    subst hend
    have hfits : v.width.Fits value := Width.check_eq_ok_iff.1 hcheck
    constructor
    · show v.length * v.width.bits ≤ 64 * (v.writeAt v.width i value).buffer.words.size
      rw [words_writeAt, Field.size_write]
      exact hv
    · apply List.ext_getElem (by simp)
      intro j hj _
      rw [getElem_toList, List.getElem_set]
      show Field.read (Field.write v.buffer.words v.width i value) v.width j = _
      split
      · next heq =>
        rw [← heq]
        exact Field.read_write_self (hv.field_le hi) hfits
      · next hne =>
        rw [getElem_toList]
        rw [v.writeAt v.width i value |>.length_toList] at hj
        exact Field.read_write_of_ne hm (hv.field_le hi) hfits hi hj (Ne.symm hne)

/-- Replacing an element keeps the length, the width and the reservation. -/
theorem shape_set {v v' : PackedVector} {i : Nat} {value : UInt64}
    (h : v.set i value = .ok v') :
    v'.length = v.length ∧ v'.width = v.width ∧ v'.buffer.capacity = v.buffer.capacity := by
  unfold PackedVector.set at h
  split at h
  · obtain ⟨_, -, hend⟩ := bind_eq_ok.1 h
    injection hend with hend
    subst hend
    exact ⟨length_writeAt .., width_writeAt .., capacity_writeAt ..⟩
  · cases h

/-- A value that fits is put at any position that there is, and the shape stays. -/
theorem set_of_fits {v : PackedVector} {i : Nat} {value : UInt64} (hi : i < v.length)
    (h : v.width.Fits value) :
    ∃ v', v.set i value = .ok v' ∧ v'.length = v.length ∧ v'.width = v.width := by
  unfold PackedVector.set
  rw [if_pos hi, Width.check_of_fits h]
  exact ⟨_, rfl, rfl, rfl⟩

/-- Replacing an element keeps a vector tidy. -/
theorem Tidy.set {v v' : PackedVector} {i : Nat} {value : UInt64} (hv : v.Tidy)
    (h : v.set i value = .ok v') : v'.Tidy := by
  unfold PackedVector.set at h
  split at h
  case isFalse => cases h
  case isTrue hi =>
    obtain ⟨u, hcheck, hend⟩ := bind_eq_ok.1 h
    injection hend with hend
    subst hend
    have hfits : v.width.Fits value := Width.check_eq_ok_iff.1 hcheck
    constructor
    · rw [words_writeAt, Field.size_write]
      exact hv.size_eq
    · intro p hp
      have hp : v.length * v.width.bits ≤ p := hp
      have hfield := Field.end_le (w := v.width) hi
      rw [words_writeAt, Field.bitAt_write (hv.housed.field_le hi) hfits, if_neg (by omega)]
      exact hv.tail p hp

/-- What replacing several elements returns when none is refused. -/
theorem toList_setEach {α : Type} {place : α → Nat} {value : α → UInt64} {l : List α} :
    ∀ {v v' : PackedVector}, v.Housed → v.width.Measures v.length →
      l.foldlM (fun v p => v.set (place p) (value p)) v = .ok v' →
      v'.Housed ∧ v'.toList = putAll v.toList (l.map fun p => (place p, value p)) := by
  induction l with
  | nil =>
    intro v v' hv _ h
    cases h
    exact ⟨hv, rfl⟩
  | cons p rest ih =>
    intro v v' hv hm h
    rw [List.foldlM_cons] at h
    obtain ⟨u, hu, hrest⟩ := bind_eq_ok.1 h
    obtain ⟨hhoused, hlist⟩ := toList_set hv hm hu
    obtain ⟨hlength, hwidth, -⟩ := shape_set hu
    obtain ⟨hhoused', hlist'⟩ := ih hhoused (by rwa [hlength, hwidth]) hrest
    exact ⟨hhoused', by rw [hlist', hlist]; rfl⟩

/-- Replacing several elements succeeds when every position is there and every value fits. -/
theorem setEach_of_fits {α : Type} {place : α → Nat} {value : α → UInt64} {l : List α}
    {v : PackedVector} (h : ∀ p ∈ l, place p < v.length ∧ v.width.Fits (value p)) :
    ∃ v', l.foldlM (fun v p => v.set (place p) (value p)) v = .ok v' := by
  induction l generalizing v with
  | nil => exact ⟨v, rfl⟩
  | cons p rest ih =>
    obtain ⟨hplace, hfits⟩ := h p (List.mem_cons_self ..)
    obtain ⟨u, hu, hlength, hwidth⟩ := set_of_fits hplace hfits
    obtain ⟨v', hv'⟩ := ih (v := u) fun q hq => by
      rw [hlength, hwidth]
      exact h q (List.mem_cons_of_mem _ hq)
    exact ⟨v', by rw [List.foldlM_cons, hu]; exact hv'⟩

/-! ## Appending elements -/

/-- `push` refuses the values that do not fit, and appends the others. -/
theorem push_of_not_fits {v : PackedVector} {value : UInt64} (h : ¬ v.width.Fits value) :
    v.push value = .error (.valueTooWide value v.width.bits) := by
  obtain ⟨buffer, length, width⟩ := v
  have h : ¬ width.Fits value := h
  unfold push
  simp only [Width.check_of_not_fits h]
  rfl

/-- A value that fits is appended. -/
theorem push_of_fits {v : PackedVector} {value : UInt64} (h : v.width.Fits value) :
    ∃ v', v.push value = .ok v' ∧ v'.length = v.length + 1 ∧ v'.width = v.width := by
  obtain ⟨buffer, length, width⟩ := v
  have h : width.Fits value := h
  unfold push
  simp only [Width.check_of_fits h]
  exact ⟨_, rfl, rfl, rfl⟩

/-- What `push` returns: the list with one more element. -/
theorem toList_push {v v' : PackedVector} {value : UInt64} (hv : v.Tidy)
    (hsmall : v.width.Measures (v.length + 1)) (h : v.push value = .ok v') :
    v'.Tidy ∧ v'.toList = v.toList ++ [value] := by
  obtain ⟨buffer, length, width⟩ := v
  obtain ⟨u, hcheck, hend⟩ := bind_eq_ok.1 h
  injection hend with hend
  subst hend
  have hfits : width.Fits value := Width.check_eq_ok_iff.1 hcheck
  have hmeasures : width.Measures (length + 1) := hsmall
  have hold : buffer.words.size = (length * width.bits + 63) / 64 := hv.size_eq
  have hsucc : (length + 1) * width.bits = length * width.bits + width.bits := Nat.succ_mul ..
  have hsize : (buffer.extendTo (width.wordsFor (length + 1))).words.size =
      ((length + 1) * width.bits + 63) / 64 := by
    have hmax := buffer.size_extendTo (width.wordsFor (length + 1))
    rw [Width.wordsFor_eq hmeasures] at hmax ⊢
    unfold Buffer.size at hmax
    omega
  have hbits : ∀ p, bitAt (buffer.extendTo (width.wordsFor (length + 1))).words p =
      bitAt buffer.words p := buffer.bitAt_extendTo _
  generalize buffer.extendTo (width.wordsFor (length + 1)) = grown at hsize hbits
  have hstart : Field.start width length = length * width.bits :=
    Field.start_eq (hmeasures.mono (Nat.le_succ length))
  have hroom : Field.start width length + width.bits ≤ 64 * grown.words.size := by omega
  refine ⟨⟨?_, ?_⟩, ?_⟩
  · show (Field.write grown.words width length value).size = _
    rw [Field.size_write]
    exact hsize
  · intro p hp
    have hp : (length + 1) * width.bits ≤ p := hp
    show bitAt (Field.write grown.words width length value) p = false
    rw [Field.bitAt_write hroom hfits, if_neg (by omega), hbits]
    apply hv.tail p
    show length * width.bits ≤ p
    omega
  · unfold toList
    show (List.range (length + 1)).map (Field.read (Field.write grown.words width length value) width) =
      (List.range length).map (Field.read buffer.words width) ++ [value]
    rw [List.range_succ, List.map_append]
    refine congrArg₂ _ (List.map_congr_left ?_) ?_
    · intro i hi
      have hi : i < length := List.mem_range.1 hi
      rw [Field.read_write_of_ne hmeasures hroom hfits (Nat.lt_succ_self length)
        (Nat.lt_succ_of_lt hi) (Nat.ne_of_lt hi)]
      exact Field.read_of_bits hi fun p _ => hbits p
    · rw [List.map_singleton, Field.read_write_self hroom hfits]

/-- Appending several elements stops at the first that does not fit, if there is one. -/
theorem pushEach_stops (values : List UInt64) (v : PackedVector) :
    (v.pushEach values).2 =
      (values.find? fun x => ¬ v.width.Fits x).map (.valueTooWide · v.width.bits) := by
  induction values generalizing v with
  | nil => rfl
  | cons x rest ih =>
    unfold pushEach
    by_cases hfits : v.width.Fits x
    · obtain ⟨u, hu, -, hwidth⟩ := push_of_fits hfits
      rw [hu, List.find?_cons_of_neg (by simpa using hfits), ← hwidth]
      exact ih u
    · rw [push_of_not_fits hfits, List.find?_cons_of_pos (by simpa using hfits)]
      rfl

/-- What appending several elements returns when none is refused. -/
theorem pushEach_ok {values : List UInt64} :
    ∀ {v v' : PackedVector}, v.pushEach values = (v', none) →
      (v'.length = v.length + values.length ∧ v'.width = v.width) ∧
        (v.Tidy → v.width.Measures (v.length + values.length) →
          v'.Tidy ∧ v'.toList = v.toList ++ values) := by
  induction values with
  | nil =>
    intro v v' h
    cases h
    exact ⟨⟨rfl, rfl⟩, fun hv _ => ⟨hv, by simp⟩⟩
  | cons x rest ih =>
    intro v v' h
    unfold pushEach at h
    by_cases hfits : v.width.Fits x
    · obtain ⟨u, hu, hlength, hwidth⟩ := push_of_fits hfits
      rw [hu] at h
      obtain ⟨⟨hlength', hwidth'⟩, hlist'⟩ := ih h
      rw [hlength, hwidth] at hlist'
      rw [List.length_cons]
      refine ⟨⟨by omega, hwidth'.trans hwidth⟩, fun hv hsmall => ?_⟩
      obtain ⟨htidy, hlist⟩ := toList_push hv (hsmall.mono (by omega)) hu
      obtain ⟨htidy', hall⟩ := hlist' htidy (by rwa [Nat.add_assoc, Nat.add_comm 1])
      exact ⟨htidy', by rw [hall, hlist, List.append_assoc]; rfl⟩
    · rw [push_of_not_fits hfits] at h
      cases h

/-- A vector without elements and without words is tidy. -/
theorem tidy_of_length_eq_zero {v : PackedVector} (hlength : v.length = 0)
    (hwords : v.buffer.words = #[]) : v.Tidy where
  size_eq := by
    rw [hlength, hwords, Nat.zero_mul]
    rfl
  tail p _ := by
    rw [hwords]
    exact bitAt_of_le (Nat.zero_le p)

/-- The vector of a list is as long as the list. -/
theorem shape_ofList? {w : Width} {values : List UInt64} {v : PackedVector}
    (h : ofList? w values = .ok v) : v.length = values.length ∧ v.width = w := by
  unfold ofList? at h
  split at h
  · next u hu =>
    cases h
    obtain ⟨⟨hlength, hwidth⟩, -⟩ := pushEach_ok hu
    exact ⟨hlength.trans (Nat.zero_add _), hwidth⟩
  · cases h

/-- The vector of a list is refused when a value of the list does not fit; the first is named. -/
theorem ofList?_of_not_fits {w : Width} {values : List UInt64} {x : UInt64}
    (h : values.find? (fun x => ¬ w.Fits x) = some x) :
    ofList? w values = .error (.valueTooWide x w.bits) := by
  have hstop := pushEach_stops values (reserving w values.length)
  have hx : values.find? (fun x => ¬ (reserving w values.length).width.Fits x) = some x := h
  rw [hx] at hstop
  unfold ofList?
  split
  · next u hu =>
    rw [hu] at hstop
    cases hstop
  · next u e hu =>
    rw [hu] at hstop
    injection hstop with hstop
    rw [hstop]
    rfl

/-- A vector is made of any values that all fit. -/
theorem ofList?_of_fits {w : Width} {values : List UInt64}
    (h : values.find? (fun x => ¬ w.Fits x) = none) :
    ∃ v, ofList? w values = .ok v ∧ v.length = values.length ∧ v.width = w := by
  have hstop := pushEach_stops values (reserving w values.length)
  have hnone : values.find? (fun x => ¬ (reserving w values.length).width.Fits x) = none := h
  rw [hnone] at hstop
  unfold ofList?
  split
  · next u hu =>
    obtain ⟨⟨hlength, hwidth⟩, -⟩ := pushEach_ok hu
    exact ⟨u, rfl, hlength.trans (Nat.zero_add _), hwidth⟩
  · next u e hu =>
    rw [hu] at hstop
    cases hstop

/-- The vector of a list stands for the list. -/
theorem toList_ofList? {w : Width} {values : List UInt64} {v : PackedVector}
    (hsmall : w.Measures values.length) (h : ofList? w values = .ok v) :
    v.Tidy ∧ v.toList = values := by
  unfold ofList? at h
  split at h
  · next u hu =>
    cases h
    obtain ⟨-, hlist⟩ := pushEach_ok hu
    obtain ⟨htidy, hall⟩ := hlist (tidy_of_length_eq_zero rfl rfl) (by simpa [reserving] using hsmall)
    exact ⟨htidy, by simpa [toList, reserving] using hall⟩
  · cases h

/-! ## Elements as numbers -/

/-- The elements as natural numbers. -/
def values (v : PackedVector) : List Nat := v.toList.map UInt64.toNat

/-- There is one value for each position. -/
@[simp] theorem length_values (v : PackedVector) : v.values.length = v.length := by
  simp [values]

/-- An entry of the values is the value of an element. -/
theorem getElem?_values_eq_some {v : PackedVector} {i y : Nat} :
    v.values[i]? = some y ↔ ∃ x, v.toList[i]? = some x ∧ x.toNat = y := by
  unfold values
  rw [List.getElem?_map, Option.map_eq_some_iff]

/-- Replacing an element replaces its value. -/
theorem values_set {v v' : PackedVector} {i : Nat} {value : UInt64} (hv : v.Housed)
    (hm : v.width.Measures v.length) (h : v.set i value = .ok v') :
    v'.Housed ∧ v'.values = v.values.set i value.toNat := by
  obtain ⟨hhoused, hlist⟩ := toList_set hv hm h
  exact ⟨hhoused, by rw [values, hlist, List.map_set]; rfl⟩

end PackedVector

end TextIndex
