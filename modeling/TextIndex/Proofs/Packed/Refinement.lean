import TextIndex.Packed.Program
import TextIndex.Proofs.Packed.Repack

/-!
# Packed vectors refine lists

A packed vector can be used without knowing how it is stored. Whatever operations it has gone
through, it behaves as a list of numbers of a given width: every operation returns what the same
operation on the list returns, and is refused in the same cases for the same reason. In between the
storage stays tidy.

The storage is measured with a 64-bit counter, so all this holds as long as the number of bits that
the elements take is below `2 ^ 64`.
-/

set_option autoImplicit false

namespace TextIndex.PackedVector

/-! ## Lists of numbers of one width -/

/-- What a packed vector stands for. -/
structure Contents where
  width : Width
  values : List UInt64

/-- What the vector stands for: its width, and the list of what is read at its positions. -/
def contents (v : PackedVector) : Contents := ⟨v.width, v.toList⟩

/-- The list model has the width of the vector. -/
@[simp] theorem width_contents (v : PackedVector) : v.contents.width = v.width := rfl

/-- The list model has the elements of the vector. -/
@[simp] theorem values_contents (v : PackedVector) : v.contents.values = v.toList := rfl

/-- The storage counter does not overflow. -/
def Measured (v : PackedVector) : Prop := v.width.Measures v.length

instance (v : PackedVector) : Decidable v.Measured :=
  inferInstanceAs (Decidable (v.length * v.width.bits < UInt64.size))

/-- Whether the counter measures a vector is told by its shape. -/
theorem measured_iff {v : PackedVector} {w : Width} {length : Nat} (hlength : v.length = length)
    (hwidth : v.width = w) : v.Measured ↔ w.Measures length := by
  rw [← hlength, ← hwidth]
  rfl

/-- The list that is asked for, refused if the width is not between 1 and 64 or a value does not fit
it. -/
def Source.contents : Source → Except VectorError Contents
  | .empty bits => do return ⟨← Width.ofNat? bits, []⟩
  | .replicate bits length value => do
    let width ← Width.ofNat? bits
    if width.Fits value then return ⟨width, List.replicate length value⟩
    else throw (.valueTooWide value width.bits)
  | .ofList bits values => do
    let width ← Width.ofNat? bits
    match values.find? (fun x => ¬ width.Fits x) with
    | none => return ⟨width, values⟩
    | some x => throw (.valueTooWide x width.bits)

namespace Contents

/-- One more number, which must fit the width. -/
def push (c : Contents) (value : UInt64) : Except VectorError Contents :=
  if c.width.Fits value then .ok { c with values := c.values ++ [value] }
  else .error (.valueTooWide value c.width.bits)

/-- Another number at a position, which must be there and is checked first. -/
def set (c : Contents) (index : Nat) (value : UInt64) : Except VectorError Contents :=
  if index < c.values.length then
    if c.width.Fits value then .ok { c with values := c.values.set index value }
    else .error (.valueTooWide value c.width.bits)
  else .error (.indexOutOfBounds index c.values.length)

/-- The first numbers, and `value` where there are none; it must fit even if it is not used. -/
def resize (c : Contents) (length : Nat) (value : UInt64) : Except VectorError Contents :=
  if c.width.Fits value then
    .ok { c with values := c.values.take length ++ List.replicate (length - c.values.length) value }
  else .error (.valueTooWide value c.width.bits)

/-- The same numbers at another width, which must hold each of them. -/
def setWidth (c : Contents) (width : Width) : Except VectorError Contents :=
  if c.values.all fun x => width.Fits x then .ok { c with width }
  else .error (.valueTooWide (c.values.foldl max 0) width.bits)

end Contents

/-- The operations on lists. -/
def Change.onList : Change → Contents → Except VectorError Contents
  | .push value, c => c.push value
  | .set index value, c => c.set index value
  | .resize length value, c => c.resize length value
  | .setWidth bits, c => do c.setWidth (← Width.ofNat? bits)
  | .bitCompress, c => return { c with width := .least (c.values.foldl max 0) }
  | .shrinkToFit, c => return c
  | .copy, c => return c

/-! ## The operations agree -/

/-- A vector is returned exactly when a list is. It is tidy and stands for that list, if the counter
measures it; and otherwise both are refused for the same reason. -/
def Agree : Except VectorError PackedVector → Except VectorError Contents → Prop
  | .ok v, .ok c => v.Measured → v.Tidy ∧ v.contents = c
  | .error e, .error e' => e = e'
  | _, _ => False

/-- A width that is not accepted is refused on both sides. -/
theorem agree_ofNat? {bits : Nat} {f : Width → Except VectorError PackedVector}
    {g : Width → Except VectorError Contents} (h : ∀ w, Agree (f w) (g w)) :
    Agree (Width.ofNat? bits >>= f) (Width.ofNat? bits >>= g) := by
  cases Width.ofNat? bits with
  | error e => exact rfl
  | ok w => exact h w

/-- A vector and its list model are made alike. -/
theorem agree_make (source : Source) : Agree source.make source.contents := by
  cases source with
  | empty bits =>
    apply agree_ofNat?
    intro w _
    exact ⟨tidy_of_length_eq_zero rfl rfl, rfl⟩
  | replicate bits length value =>
    apply agree_ofNat?
    intro w
    by_cases hfits : w.Fits value
    · obtain ⟨v, hv, hlength, hwidth⟩ := resize_of_fits (empty w) length hfits
      have hmake : replicate? w length value = .ok v := hv
      rw [hmake, if_pos hfits]
      intro hm
      obtain ⟨htidy, hlist⟩ := toList_replicate? ((measured_iff hlength hwidth).1 hm) hmake
      exact ⟨htidy, by rw [contents, hlist, hwidth]; rfl⟩
    · have hmake : replicate? w length value = .error _ := resize_of_not_fits (v := empty w) hfits
      rw [hmake, if_neg hfits]
      exact rfl
  | ofList bits values =>
    apply agree_ofNat?
    intro w
    cases hfind : values.find? (fun x => ¬ w.Fits x) with
    | none =>
      obtain ⟨v, hv, hlength, hwidth⟩ := ofList?_of_fits hfind
      rw [hv]
      intro hm
      obtain ⟨htidy, hlist⟩ := toList_ofList? ((measured_iff hlength hwidth).1 hm) hv
      exact ⟨htidy, by rw [contents, hlist, hwidth]⟩
    | some x =>
      rw [ofList?_of_not_fits hfind]
      exact rfl

/-- Appending an element is appending it to the list, and the same values are refused. -/
theorem agree_push {v : PackedVector} (hv : v.Tidy) (value : UInt64) :
    Agree (v.push value) (v.contents.push value) := by
  unfold Contents.push
  rw [width_contents, values_contents]
  by_cases hfits : v.width.Fits value
  · obtain ⟨v', hv', hlength, hwidth⟩ := push_of_fits hfits
    rw [hv', if_pos hfits]
    intro hm
    obtain ⟨htidy, hlist⟩ := toList_push hv ((measured_iff hlength hwidth).1 hm) hv'
    exact ⟨htidy, by rw [contents, hlist, hwidth]⟩
  · rw [push_of_not_fits hfits, if_neg hfits]
    exact rfl

/-- Replacing an element is replacing it in the list, and the same positions and values are refused. -/
theorem agree_set {v : PackedVector} (hv : v.Tidy) (hm : v.Measured) (index : Nat) (value : UInt64) :
    Agree (v.set index value) (v.contents.set index value) := by
  unfold Contents.set
  rw [width_contents, values_contents, length_toList]
  by_cases hindex : index < v.length
  · rw [if_pos hindex]
    by_cases hfits : v.width.Fits value
    · have hv' : v.set index value = .ok (v.writeAt v.width index value) := by
        unfold set
        rw [if_pos hindex, Width.check_of_fits hfits]
        rfl
      rw [hv', if_pos hfits]
      intro _
      obtain ⟨-, hlist⟩ := toList_set hv.housed hm hv'
      exact ⟨hv.set hv', by rw [contents, hlist]; rfl⟩
    · have hv' : v.set index value = .error (.valueTooWide value v.width.bits) := by
        unfold set
        rw [if_pos hindex, Width.check_of_not_fits hfits]
        rfl
      rw [hv', if_neg hfits]
      exact rfl
  · have hv' : v.set index value = .error (.indexOutOfBounds index v.length) := if_neg hindex
    rw [hv', if_neg hindex]
    exact rfl

/-- Resizing a vector is resizing the list, and the same values are refused. -/
theorem agree_resize {v : PackedVector} (hv : v.Tidy) (length : Nat) (value : UInt64) :
    Agree (v.resize length value) (v.contents.resize length value) := by
  unfold Contents.resize
  rw [width_contents, values_contents]
  by_cases hfits : v.width.Fits value
  · obtain ⟨v', hv', hlength, hwidth⟩ := resize_of_fits v length hfits
    rw [hv', if_pos hfits]
    intro hm
    obtain ⟨htidy, hlist⟩ := toList_resize hv ((measured_iff hlength hwidth).1 hm) hv'
    exact ⟨htidy, by rw [length_toList, contents, hlist, hwidth]⟩
  · rw [resize_of_not_fits hfits, if_neg hfits]
    exact rfl

/-- Changing the width keeps the elements, and the same widths are refused. -/
theorem agree_setWidth {v : PackedVector} (hv : v.Tidy) (hold : v.Measured) (bits : Nat) :
    Agree ((Change.setWidth bits).apply v) ((Change.setWidth bits).onList v.contents) := by
  apply agree_ofNat?
  intro w
  unfold Contents.setWidth
  rw [values_contents]
  by_cases hfits : ∀ x ∈ v.toList, w.Fits x
  · have hall : v.toList.all (fun x => w.Fits x) = true := by simpa using hfits
    rw [setWidth_of_fits hfits, if_pos hall]
    intro hm
    have hshape := v.shape_repack w
    have hm := (measured_iff hshape.1 hshape.2).1 hm
    have hpacked := repacked_setWidth hv.housed hold hm (setWidth_of_fits hfits)
    exact ⟨hpacked.tidy hv, by rw [contents, hpacked.toList_eq, hpacked.width_eq]⟩
  · have hall : ¬ v.toList.all (fun x => w.Fits x) = true := by simpa using hfits
    rw [setWidth_of_not_fits hfits, if_neg hall]
    exact rfl

/-- Every operation does to the vector what it does to the list. -/
theorem agree_change {v : PackedVector} (hv : v.Tidy) (hm : v.Measured) (change : Change) :
    Agree (change.apply v) (change.onList v.contents) := by
  cases change with
  | push value => exact agree_push hv value
  | set index value => exact agree_set hv hm index value
  | resize length value => exact agree_resize hv length value
  | setWidth bits => exact agree_setWidth hv hm bits
  | bitCompress =>
    have hpacked := repacked_bitCompress hv.housed hm
    intro _
    exact ⟨hpacked.tidy hv, by rw [contents, hpacked.toList_eq, hpacked.width_eq]; rfl⟩
  | shrinkToFit => exact fun _ => ⟨⟨hv.size_eq, hv.tail⟩, rfl⟩
  | copy => exact fun _ => ⟨⟨hv.size_eq, hv.tail⟩, rfl⟩

/-! ## Every history -/

/-- The vectors that operations lead to, refused ones included, while the counter measures them. -/
inductive Reachable : PackedVector → Prop where
  | make {source : Source} {v : PackedVector} (h : source.make = .ok v) (hm : v.Measured) :
      Reachable v
  | change {v : PackedVector} (hv : Reachable v) (change : Change) (hm : (change.after v).Measured) :
      Reachable (change.after v)

/-- The counter measures every vector that operations lead to. -/
theorem Reachable.measured {v : PackedVector} (h : Reachable v) : v.Measured := by
  cases h with
  | make _ hm => exact hm
  | change _ _ hm => exact hm

/-- Every history keeps the storage tidy. -/
theorem Reachable.tidy {v : PackedVector} (h : Reachable v) : v.Tidy := by
  induction h with
  | @make source v h hm =>
    have hagree := agree_make source
    rw [h] at hagree
    cases hlist : source.contents with
    | error e =>
      rw [hlist] at hagree
      exact hagree.elim
    | ok c =>
      rw [hlist] at hagree
      exact (hagree hm).1
  | @change v hv change hm ih =>
    have hagree := agree_change ih hv.measured change
    unfold Change.after at hm ⊢
    cases happly : change.apply v with
    | error e => exact ih
    | ok v' =>
      rw [happly] at hm hagree
      cases hlist : change.onList v.contents with
      | error e =>
        rw [hlist] at hagree
        exact hagree.elim
      | ok c =>
        rw [hlist] at hagree
        exact (hagree hm).1

/-- A vector behaves as the list of its elements, and its storage holds nothing else. -/
structure RefinesList (v : PackedVector) : Prop where
  /-- There are no more words than the elements need. -/
  size_eq : v.buffer.size = (v.length * v.width.bits + 63) / 64
  /-- All bits past the last element are zero. -/
  tail : ∀ p, v.length * v.width.bits ≤ p → bitAt v.buffer.words p = false
  get?_eq : ∀ i, v.get? i = v.contents.values[i]?
  /-- Every operation returns what it returns on the list, or is refused as there. -/
  agree : ∀ change : Change, Agree (change.apply v) (change.onList v.contents)
  /-- An operation that is refused changes nothing. -/
  kept : ∀ (change : Change) e, change.apply v = .error e → change.after v = v

/-- Packed vectors refine lists: whatever way they are made, and after any operations. -/
theorem packed_vectors_refine_lists :
    (∀ source : Source, Agree source.make source.contents) ∧
      ∀ v : PackedVector, Reachable v → v.RefinesList := by
  refine ⟨agree_make, fun v hv => ⟨hv.tidy.size_eq, hv.tidy.tail, v.get?_eq, ?_, ?_⟩⟩
  · exact agree_change hv.tidy hv.measured
  · intro change e h
    unfold Change.after
    rw [h]

/-- A vector of three elements that lie across the boundary of two words, cut to two. -/
theorem refines_list_across_words :
    ∃ v : PackedVector, Reachable v ∧ v.toList = [5, 0x10000000000] ∧ v.RefinesList := by
  have hmake : (Source.ofList 41 [5, 0x10000000000, 7]).make = .ok ⟨_, _, _⟩ := rfl
  have hmade := Reachable.make hmake (by decide)
  have hcut := hmade.change (.resize 2 0) (by decide)
  exact ⟨_, hcut, by decide +kernel, packed_vectors_refine_lists.2 _ hcut⟩

end TextIndex.PackedVector
