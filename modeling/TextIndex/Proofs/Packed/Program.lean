import TextIndex.Proofs.Packed.Refinement

/-!
# Programs over packed vectors

A program reckons with a 64-bit counter how many words a vector takes and in which word an element starts,
and it may end on the way to the result of an operation.

* One that does not end returns what the operation returns (`run_eq_ok_iff`, `make_of_run`).
* As long as the counter measures the elements no operation ends a program, whether its counter is checked
  or wraps (`run_change`, `run_source`).
* A program with a checked counter has no other vectors, so that all that holds of the vectors that the
  counter measures holds of each that such a program has (`reaches_checked_iff`), and reading their elements
  ends none (`Reaches.fetch`).
-/

set_option autoImplicit false

namespace TextIndex

/-! ## The counter -/

/-- No word of a field is missing when its last bit is there. -/
theorem Field.missing?_eq_none_iff {w : Width} {size i : Nat} :
    missing? size w i = none ↔ start w i + w.bits ≤ 64 * size := by
  have hpos := w.one_le
  have hle := w.le_word
  unfold missing? Spills word offset
  split
  · simp only [reduceCtorEq, false_iff]
    omega
  · split
    · simp only [reduceCtorEq, false_iff]
      omega
    · simp only [true_iff]
      omega

namespace Counter

variable {c : Counter} {w : Width} {n size i : Nat}

/-- A product is what is left of the exact one, unless the counter notices that it is too large. -/
theorem bits_eq_ok_iff {m : Nat} :
    c.bits w n = .ok m ↔ (c = .checked → w.Measures n) ∧ m = n * w.bits % UInt64.size := by
  unfold bits Width.Measures
  split
  · next h => simp [h]
  · next h =>
    rw [not_and, Nat.not_le] at h
    simp only [Except.ok.injEq, eq_comm (a := n * w.bits % UInt64.size)]
    exact ⟨fun heq => ⟨h, heq⟩, And.right⟩

/-- The words reckoned by a program are those of the vector. -/
theorem wordsFor_eq_ok_iff {m : Nat} :
    c.wordsFor w n = .ok m ↔ (c = .checked → w.Measures n) ∧ m = w.wordsFor n := by
  unfold wordsFor
  rw [bind_eq_ok]
  constructor
  · rintro ⟨bits, hbits, hend⟩
    obtain ⟨hm, rfl⟩ := bits_eq_ok_iff.1 hbits
    cases hend
    exact ⟨hm, rfl⟩
  · rintro ⟨hm, rfl⟩
    exact ⟨_, bits_eq_ok_iff.2 ⟨hm, rfl⟩, rfl⟩

/-- The words of elements that the counter measures are reckoned, whether it is checked or not. -/
theorem wordsFor_of_measures (c : Counter) (hm : w.Measures n) :
    c.wordsFor w n = .ok (w.wordsFor n) := wordsFor_eq_ok_iff.2 ⟨fun _ => hm, rfl⟩

/-- A checked counter reckons the words of elements that it measures, and of no others. -/
theorem measures_of_wordsFor {m : Nat} (h : Counter.checked.wordsFor w n = .ok m) : w.Measures n :=
  (wordsFor_eq_ok_iff.1 h).1 rfl

/-- A checked counter ends the program over elements that it does not measure. -/
theorem wordsFor_of_not_measures (hm : ¬ w.Measures n) :
    Counter.checked.wordsFor w n = .error .overflow := by
  have hlong : UInt64.size ≤ n * w.bits := Nat.not_lt.1 hm
  unfold wordsFor bits
  rw [if_pos ⟨rfl, hlong⟩]
  rfl

/-- A field that the counter measures is found if it ends inside the words. -/
theorem lookUp_of_inside (c : Counter) (hm : w.Measures i)
    (hroom : Field.start w i + w.bits ≤ 64 * size) : c.lookUp size w i = .ok () := by
  have hbits : c.bits w i = .ok (i * w.bits % UInt64.size) := bits_eq_ok_iff.2 ⟨fun _ => hm, rfl⟩
  unfold lookUp
  rw [hbits, Field.missing?_eq_none_iff.2 hroom]
  rfl

/-- The fields of elements that the counter measures are found in the words that it reckons for them, and
in more words too. -/
theorem lookUp_of_lt (c : Counter) (hm : w.Measures n) (hsize : w.wordsFor n ≤ size) (hi : i < n) :
    c.lookUp size w i = .ok () := by
  have hend := Field.end_le (w := w) hi
  have hroom := w.mul_bits_le_wordsFor hm
  exact c.lookUp_of_inside (hm.mono (Nat.le_of_lt hi)) (by omega)

end Counter

namespace PackedVector

variable {c : Counter} {v u : PackedVector} {w : Width} {i length : Nat} {value : UInt64}
  {change : Change} {source : Source}

/-- The vector after an operation that is not refused is the one that it returns. -/
theorem after_of_ok (h : change.apply v = .ok u) : change.after v = u := by
  unfold Change.after
  rw [h]

/-- Whether the counter measures the vector after an operation is told by the shape of what it returns. -/
theorem measured_after (h : change.apply v = .ok u) (hlength : u.length = length)
    (hwidth : u.width = w) : (change.after v).Measured ↔ w.Measures length := by
  rw [after_of_ok h]
  exact measured_iff hlength hwidth

/-! ## What a program returns -/

/-- A program that does not end in an operation returns what the operation returns. -/
theorem run_eq_ok_iff {outcome : Except VectorError PackedVector} :
    change.run c v = .ok outcome ↔ change.work c v = .ok () ∧ outcome = change.apply v := by
  unfold Change.run
  rw [bind_eq_ok]
  constructor
  · rintro ⟨_, hwork, hend⟩
    cases hend
    exact ⟨hwork, rfl⟩
  · rintro ⟨hwork, rfl⟩
    exact ⟨(), hwork, rfl⟩

/-- The operation is carried out where the work for it can be done. -/
theorem run_of_work (h : change.work c v = .ok ()) : change.run c v = .ok (change.apply v) :=
  run_eq_ok_iff.2 ⟨h, rfl⟩

/-- Appending several elements returns what appending them without a program does. -/
theorem appendEach_eq {values : List UInt64} {outcome : PackedVector × Option VectorError}
    (h : v.appendEach c values = .ok outcome) : outcome = v.pushEach values := by
  induction values generalizing v with
  | nil =>
    cases h
    rfl
  | cons x rest ih =>
    obtain ⟨pushed, hpush, hrest⟩ := bind_eq_ok.1 h
    obtain ⟨-, rfl⟩ := run_eq_ok_iff.1 hpush
    unfold pushEach
    cases hx : v.push x with
    | ok u =>
      have hx : (Change.push x).apply v = .ok u := hx
      rw [hx] at hrest
      exact ih hrest
    | error e =>
      have hx : (Change.push x).apply v = .error e := hx
      rw [hx] at hrest
      cases hrest
      rfl

/-- A program that does not end in making a vector returns the vector that is made. -/
theorem make_of_run {outcome : Except VectorError PackedVector} (h : source.run c = .ok outcome) :
    outcome = source.make := by
  cases source with
  | empty bits =>
    cases h
    rfl
  | replicate bits length value =>
    dsimp only [Source.run] at h
    dsimp only [Source.make]
    cases hwidth : Width.ofNat? bits with
    | error e =>
      rw [hwidth] at h
      cases h
      rfl
    | ok w =>
      rw [hwidth] at h
      exact (run_eq_ok_iff.1 h).2
  | ofList bits values =>
    dsimp only [Source.run] at h
    dsimp only [Source.make]
    cases hwidth : Width.ofNat? bits with
    | error e =>
      rw [hwidth] at h
      cases h
      rfl
    | ok w =>
      rw [hwidth] at h
      obtain ⟨_, -, h⟩ := bind_eq_ok.1 h
      obtain ⟨pushed, hpushed, hend⟩ := bind_eq_ok.1 h
      rw [appendEach_eq hpushed] at hend
      show outcome = ofList? w values
      unfold ofList?
      cases hvalues : (reserving w values.length).pushEach values with
      | mk u refused =>
        rw [hvalues] at hend
        cases refused <;> (cases hend; rfl)

/-! ## Operations that do not end a program -/

/-- An element of a vector whose words have room for it is fetched. -/
theorem fetch_of_housed (c : Counter) (hv : v.Housed) (hm : v.Measured) (i : Nat) :
    v.fetch c i = .ok (v.get? i) := by
  unfold fetch get?
  split
  · next hi =>
    have hlook : c.lookUp v.buffer.size v.width i = .ok () :=
      c.lookUp_of_inside (hm.mono (Nat.le_of_lt hi)) (hv.field_le hi)
    rw [hlook]
    rfl
  · rfl

/-- So are all of them. -/
theorem scan_of_housed (c : Counter) (hv : v.Housed) (hm : v.Measured) : v.scan c = .ok () := by
  apply forM_eq_ok
  intro i hi
  have hi : i < v.length := List.mem_range.1 hi
  exact c.lookUp_of_inside (hm.mono (Nat.le_of_lt hi)) (hv.field_le hi)

/-- Moving all elements to another width ends no program if the counter measures them at both. -/
theorem relocate_of_housed (c : Counter) (hv : v.Housed) (hm : v.Measured)
    (hnew : w.Measures v.length) : v.relocate c w = .ok () := by
  -- at both widths an element lies inside the words that are there while it is moved
  have hround : ∀ size i, i < v.length → v.length * v.width.bits ≤ 64 * size →
      v.length * w.bits ≤ 64 * size →
      (do c.lookUp size v.width i; c.lookUp size w i : Except Halt Unit) = .ok () := by
    intro size i hi hold hwide
    have hsource := Nat.le_trans (Field.end_le (w := v.width) hi) hold
    have htarget := Nat.le_trans (Field.end_le (w := w) hi) hwide
    rw [c.lookUp_of_inside (hm.mono (Nat.le_of_lt hi)) hsource]
    exact c.lookUp_of_inside (hnew.mono (Nat.le_of_lt hi)) htarget
  have hwords := c.wordsFor_of_measures hnew
  unfold relocate
  split
  · rfl
  split
  · next hlt =>
    have hshort := Nat.mul_le_mul_left v.length (Nat.le_of_lt hlt)
    have hloop := forM_eq_ok fun i hi =>
      hround v.buffer.size i (List.mem_range.1 hi) hv (Nat.le_trans hshort hv)
    rw [hloop, hwords]
    rfl
  · next hge =>
    have hshort := Nat.mul_le_mul_left v.length (Nat.not_lt.1 hge)
    have hroom := w.mul_bits_le_wordsFor hnew
    rw [hwords]
    apply forM_eq_ok
    intro i hi
    rw [List.mem_reverse, List.mem_range] at hi
    exact hround _ i hi (Nat.le_trans hshort hroom) hroom

/-- What changing the width returns. -/
theorem setWidth_eq_ok_iff :
    v.setWidth w = .ok u ↔ (∀ x ∈ v.toList, w.Fits x) ∧ u = v.repack w := by
  by_cases hfits : ∀ x ∈ v.toList, w.Fits x
  · rw [setWidth_of_fits hfits, Except.ok.injEq, eq_comm, and_iff_right hfits]
  · rw [setWidth_of_not_fits hfits]
    simp [hfits]

/-- Resizing to a length that the counter measures ends no program, whatever the vector has gone through. -/
theorem work_resize (c : Counter) (v : PackedVector) (hm : v.width.Measures length) (value : UInt64) :
    (Change.resize length value).work c v = .ok () := by
  dsimp only [Change.work]
  split
  · rw [c.wordsFor_of_measures hm]
    show (if value ≠ 0 then _ else _) = _
    split
    · apply forM_eq_ok
      intro i hi
      have hbounds := List.mem_range'_1.1 hi
      exact c.lookUp_of_lt hm (Nat.le_refl _) (by omega)
    · rfl
  · rfl

/-- Nor does moving to a width that holds the elements, and at which the counter measures them. -/
theorem work_setWidth (c : Counter) (hv : v.Housed) (hm : v.Measured) {bits : Nat}
    (h : ((Change.setWidth bits).after v).Measured) :
    (Change.setWidth bits).work c v = .ok () := by
  dsimp only [Change.work]
  cases hwidth : Width.ofNat? bits with
  | error e => rfl
  | ok w =>
    have hmove : v.setWidth w = .ok (v.repack w) → v.relocate c w = .ok () := by
      intro hset
      have happly : (Change.setWidth bits).apply v = .ok (v.repack w) := by
        dsimp only [Change.apply]
        rw [hwidth]
        exact hset
      have hshape := v.shape_repack w
      exact relocate_of_housed c hv hm ((measured_after happly hshape.1 hshape.2).1 h)
    dsimp only
    split
    · next hlt =>
      rw [scan_of_housed c hv hm]
      show (if w.Fits v.maxValue then _ else _) = _
      split
      · next hfits =>
        apply hmove
        unfold setWidth
        rw [if_pos hlt, Width.check_of_fits hfits]
        rfl
      · rfl
    · next hge =>
      apply hmove
      unfold setWidth
      exact if_neg hge

/-- As long as the counter measures the elements, before and after, no operation ends a program. -/
theorem run_change (c : Counter) (hv : v.Tidy) (hm : v.Measured) (change : Change)
    (h : (change.after v).Measured) : change.run c v = .ok (change.apply v) := by
  apply run_of_work
  cases change with
  | push value =>
    dsimp only [Change.work]
    split
    · next hfits =>
      obtain ⟨u, hu, hlength, hwidth⟩ := push_of_fits hfits
      have happly : (Change.push value).apply v = .ok u := hu
      have hlonger := (measured_after happly hlength hwidth).1 h
      rw [c.wordsFor_of_measures hlonger]
      exact c.lookUp_of_lt hlonger (Nat.le_max_right ..) (Nat.lt_succ_self _)
    · rfl
  | set index value =>
    dsimp only [Change.work]
    split
    · next hset =>
      exact c.lookUp_of_inside (hm.mono (Nat.le_of_lt hset.1)) (hv.housed.field_le hset.1)
    · rfl
  | resize length value =>
    by_cases hfits : v.width.Fits value
    · obtain ⟨u, hu, hlength, hwidth⟩ := resize_of_fits v length hfits
      have happly : (Change.resize length value).apply v = .ok u := hu
      exact work_resize c v ((measured_after happly hlength hwidth).1 h) value
    · dsimp only [Change.work]
      exact if_neg hfits
  | setWidth bits => exact work_setWidth c hv.housed hm h
  | bitCompress =>
    have hle : (Width.least v.maxValue).bits ≤ v.width.bits :=
      bits_least_le (fits_maxValue fun _ hx => fits_of_mem hx)
    dsimp only [Change.work]
    rw [scan_of_housed c hv.housed hm]
    exact relocate_of_housed c hv.housed hm (hm.narrow hle)
  | shrinkToFit => rfl
  | copy => rfl

/-- Appending several elements that the counter measures ends no program. -/
theorem exists_appendEach (c : Counter) {values : List UInt64} (hv : v.Tidy)
    (hm : v.width.Measures (v.length + values.length)) :
    v.appendEach c values = .ok (v.pushEach values) := by
  suffices h : ∃ outcome, v.appendEach c values = .ok outcome by
    obtain ⟨outcome, h⟩ := h
    rw [h, appendEach_eq h]
  induction values generalizing v with
  | nil => exact ⟨_, rfl⟩
  | cons x rest ih =>
    have hlonger : v.width.Measures (v.length + 1) := hm.mono (by rw [List.length_cons]; omega)
    have hnow : v.Measured := hlonger.mono (Nat.le_succ _)
    unfold appendEach
    by_cases hfits : v.width.Fits x
    · obtain ⟨u, hu, hlength, hwidth⟩ := push_of_fits hfits
      have happly : (Change.push x).apply v = .ok u := hu
      have hafter := (measured_after happly hlength hwidth).2 hlonger
      rw [run_change c hv hnow (.push x) hafter, happly]
      apply ih (toList_push hv hlonger hu).1
      rw [hwidth, hlength]
      rwa [List.length_cons, Nat.add_comm rest.length 1, ← Nat.add_assoc] at hm
    · have happly : (Change.push x).apply v = .error _ := push_of_not_fits hfits
      have hafter : ((Change.push x).after v).Measured := by
        unfold Change.after
        rwa [happly]
      rw [run_change c hv hnow (.push x) hafter, happly]
      exact ⟨_, rfl⟩

/-- Nor does making a vector that the counter measures. -/
theorem run_source (c : Counter) (h : source.make = .ok v) (hm : v.Measured) :
    source.run c = .ok (.ok v) := by
  suffices hends : ∃ outcome, source.run c = .ok outcome by
    obtain ⟨outcome, hrun⟩ := hends
    rw [hrun, make_of_run hrun, h]
  cases source with
  | empty bits => exact ⟨_, rfl⟩
  | replicate bits length value =>
    obtain ⟨w, hwidth, hmake⟩ := bind_eq_ok.1 h
    obtain ⟨hlength, hsame, -⟩ := shape_resize hmake
    have hm := (measured_iff hlength hsame).1 hm
    dsimp only [Source.run]
    rw [hwidth]
    exact ⟨_, run_of_work (work_resize c (empty w) hm value)⟩
  | ofList bits values =>
    obtain ⟨w, hwidth, hmake⟩ := bind_eq_ok.1 h
    obtain ⟨hlength, hsame⟩ := shape_ofList? hmake
    have hm := (measured_iff hlength hsame).1 hm
    have hempty : (reserving w values.length).Tidy := tidy_of_length_eq_zero rfl rfl
    have hlonger : w.Measures (0 + values.length) := by rwa [Nat.zero_add]
    dsimp only [Source.run]
    rw [hwidth]
    dsimp only
    rw [c.wordsFor_of_measures hm, exists_appendEach c hempty hlonger]
    cases (reserving w values.length).pushEach values with
    | mk u refused => cases refused <;> exact ⟨_, rfl⟩

/-! ## The vectors of a program -/

/-- The vectors that a program makes, and those that it makes of them. What is refused changes nothing. -/
inductive Reaches (c : Counter) : PackedVector → Prop where
  | make {source : Source} {v : PackedVector} (h : source.run c = .ok (.ok v)) : Reaches c v
  | change {v u : PackedVector} {change : Change} (hv : Reaches c v)
      (h : change.run c v = .ok (.ok u)) : Reaches c u

/-- A checked counter measures the elements of each vector that is resized. -/
theorem measures_of_resize (h : (Change.resize length value).run .checked v = .ok (.ok u)) :
    v.width.Measures length := by
  obtain ⟨hwork, happly⟩ := run_eq_ok_iff.1 h
  by_cases hfits : v.width.Fits value
  · dsimp only [Change.work] at hwork
    rw [if_pos hfits] at hwork
    obtain ⟨_, hwords, -⟩ := bind_eq_ok.1 hwork
    exact Counter.measures_of_wordsFor hwords
  · cases happly.trans (resize_of_not_fits hfits)

/-- A checked counter measures the elements of each vector that is moved to another width. -/
theorem measures_of_relocate (hm : v.Measured) (h : v.relocate .checked w = .ok ()) :
    w.Measures v.length := by
  unfold relocate at h
  split at h
  · next heq => exact heq ▸ hm
  split at h
  · next hlt => exact hm.narrow (Nat.le_of_lt hlt)
  · obtain ⟨_, hwords, -⟩ := bind_eq_ok.1 h
    exact Counter.measures_of_wordsFor hwords

/-- What an operation returns in a program with a checked counter is measured by it. -/
theorem measured_of_run (hm : v.Measured) (h : change.run .checked v = .ok (.ok u)) : u.Measured := by
  obtain ⟨hwork, happly⟩ := run_eq_ok_iff.1 h
  have happly := happly.symm
  cases change with
  | push value =>
    by_cases hfits : v.width.Fits value
    · obtain ⟨u', hu, hlength, hwidth⟩ := push_of_fits hfits
      cases hu.symm.trans happly
      dsimp only [Change.work] at hwork
      rw [if_pos hfits] at hwork
      obtain ⟨_, hwords, -⟩ := bind_eq_ok.1 hwork
      exact (measured_iff hlength hwidth).2 (Counter.measures_of_wordsFor hwords)
    · cases (push_of_not_fits hfits).symm.trans happly
  | set index value =>
    obtain ⟨hlength, hwidth, -⟩ := shape_set happly
    exact (measured_iff hlength hwidth).2 hm
  | resize length value =>
    obtain ⟨hlength, hwidth, -⟩ := shape_resize happly
    exact (measured_iff hlength hwidth).2 (measures_of_resize h)
  | setWidth bits =>
    obtain ⟨w, hwidth, hset⟩ := bind_eq_ok.1 happly
    obtain ⟨hfits, rfl⟩ := setWidth_eq_ok_iff.1 hset
    dsimp only [Change.work] at hwork
    rw [hwidth] at hwork
    have hmove : v.relocate .checked w = .ok () := by
      dsimp only at hwork
      split at hwork
      · obtain ⟨_, -, hwork⟩ := bind_eq_ok.1 hwork
        rwa [if_pos (fits_maxValue hfits)] at hwork
      · exact hwork
    have hshape := v.shape_repack w
    exact (measured_iff hshape.1 hshape.2).2 (measures_of_relocate hm hmove)
  | bitCompress =>
    obtain ⟨_, -, hmove⟩ := bind_eq_ok.1 hwork
    cases happly
    have hshape := v.shape_repack (.least v.maxValue)
    exact (measured_iff (v := v.bitCompress) hshape.1 hshape.2).2 (measures_of_relocate hm hmove)
  | shrinkToFit =>
    cases happly
    exact hm
  | copy =>
    cases happly
    exact hm

/-- So is what it makes. -/
theorem measured_of_make (h : source.run .checked = .ok (.ok v)) : v.Measured := by
  have hmake := (make_of_run h).symm
  cases source with
  | empty bits =>
    obtain ⟨w, -, hend⟩ := bind_eq_ok.1 hmake
    cases hend
    unfold Measured Width.Measures empty
    rw [Nat.zero_mul]
    decide
  | replicate bits length value =>
    obtain ⟨w, hwidth, hresize⟩ := bind_eq_ok.1 hmake
    obtain ⟨hlength, hsame, -⟩ := shape_resize hresize
    dsimp only [Source.run] at h
    rw [hwidth] at h
    exact (measured_iff hlength hsame).2 (measures_of_resize h)
  | ofList bits values =>
    obtain ⟨w, hwidth, hlist⟩ := bind_eq_ok.1 hmake
    obtain ⟨hlength, hsame⟩ := shape_ofList? hlist
    dsimp only [Source.run] at h
    rw [hwidth] at h
    obtain ⟨_, hwords, -⟩ := bind_eq_ok.1 h
    cases hreckoned : Counter.checked.wordsFor w values.length with
    | error e =>
      rw [hreckoned] at hwords
      cases hwords
    | ok size => exact (measured_iff hlength hsame).2 (Counter.measures_of_wordsFor hreckoned)

/-- The vectors of a program with a checked counter are those that the counter measures, after any
operations. -/
theorem reaches_checked_iff : Reaches .checked v ↔ Reachable v := by
  constructor
  · intro h
    induction h with
    | make h => exact .make (make_of_run h).symm (measured_of_make h)
    | @change v u change _ h ih =>
      have hafter : change.after v = u := after_of_ok (run_eq_ok_iff.1 h).2.symm
      have hm := measured_of_run ih.measured h
      rw [← hafter] at hm ⊢
      exact ih.change change hm
  · intro h
    induction h with
    | make h hm => exact .make (run_source .checked h hm)
    | @change v hv change hm ih =>
      have hrun := run_change .checked hv.tidy hv.measured change hm
      unfold Change.after at hm hrun ⊢
      cases happly : change.apply v with
      | error e => exact ih
      | ok u => exact ih.change (hrun.trans (congrArg _ happly))

/-- Reading an element ends no program with a checked counter. -/
theorem Reaches.fetch (h : Reaches .checked v) (i : Nat) : v.fetch .checked i = .ok (v.get? i) :=
  have hv := reaches_checked_iff.1 h
  fetch_of_housed .checked hv.tidy.housed hv.measured i

end PackedVector

end TextIndex
