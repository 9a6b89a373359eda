/-!
# Element widths

A packed vector stores every element in the same number of bits, its width. This file holds the
legal widths, the values that fit one, the least width of a value, the number of words that a run
of elements takes, and the ways in which an operation on packed elements is refused.

Lengths and positions are natural numbers; a product of a length and a width is taken modulo two to
the power 64, because that is the size of the counter that the storage is measured with. Whether a
program goes on with a product that the counter does not hold is another matter (`Counter`).
-/

set_option autoImplicit false

namespace TextIndex

/-- Why an operation on packed elements is refused. -/
inductive VectorError where
  /-- The number of bits per element is not between 1 and 64. -/
  | widthOutOfRange (bits : Nat)
  /-- The value needs more bits than an element has. -/
  | valueTooWide (value : UInt64) (bits : Nat)
  /-- The position is past the last element. -/
  | indexOutOfBounds (index length : Nat)
deriving DecidableEq, Repr

/-- The sentence shown for a refusal. -/
def VectorError.message : VectorError → String
  | .widthOutOfRange bits => s!"element width {bits} is outside 1..=64"
  | .valueTooWide value bits => s!"value {value.toNat} does not fit in {bits} bits"
  | .indexOutOfBounds index length => s!"index {index} is out of bounds for length {length}"

/-- A legal element width: from a single bit to a whole word. -/
structure Width where
  bits : Nat
  one_le : 1 ≤ bits
  le_word : bits ≤ 64
deriving DecidableEq, Repr

namespace Width

/-- The width of `bits` bits, refused outside `1 ≤ bits ≤ 64`. -/
def ofNat? (bits : Nat) : Except VectorError Width :=
  if h : 1 ≤ bits ∧ bits ≤ 64 then .ok ⟨bits, h.1, h.2⟩ else .error (.widthOutOfRange bits)

/-- Width 1, the least. -/
def one : Width := ⟨1, by decide, by decide⟩

/-- Width 8, that of a byte. -/
def byte : Width := ⟨8, by decide, by decide⟩

/-- The least number that a width does not hold: two to the power of its bits. -/
def bound (w : Width) : Nat := Nat.pow 2 w.bits

/-- A value fits a width when it is below the width's bound. -/
def Fits (w : Width) (value : UInt64) : Prop := value.toNat < w.bound

instance (w : Width) (value : UInt64) : Decidable (w.Fits value) :=
  inferInstanceAs (Decidable (value.toNat < w.bound))

/-- Accepts the values that fit. -/
def check (w : Width) (value : UInt64) : Except VectorError Unit :=
  if w.Fits value then .ok () else .error (.valueTooWide value w.bits)

/-- The word whose low `w` bits are set. -/
def mask (w : Width) : UInt64 := (-1) >>> (64 - w.bits).toUInt64

/-- Binary digits of a 64-bit value number at most 64. -/
theorem log2_toNat_lt (value : UInt64) : value.toNat.log2 < 64 := by
  by_cases h : value.toNat = 0
  · simp [h, Nat.log2_zero]
  · exact (Nat.log2_lt h).2 value.toNat_lt

/-- The least width that holds `value`: its number of binary digits, where zero has one. -/
def least (value : UInt64) : Width :=
  ⟨value.toNat.log2 + 1, by omega, log2_toNat_lt value⟩

/-- The number of words behind `length` elements, as far as the counter has them. -/
def wordsFor (w : Width) (length : Nat) : Nat := (length * w.bits % UInt64.size + 63) / 64

/-- `ofNat?` accepts exactly the widths from 1 to 64. -/
theorem ofNat?_eq_ok_iff {bits : Nat} {w : Width} :
    ofNat? bits = .ok w ↔ bits = w.bits := by
  unfold ofNat?
  constructor
  · intro h
    split at h
    · injection h with h
      exact h ▸ rfl
    · cases h
  · rintro rfl
    simp [w.one_le, w.le_word]

/-- `check` refuses exactly the values that do not fit. -/
theorem check_eq_ok_iff {w : Width} {value : UInt64} : w.check value = .ok () ↔ w.Fits value := by
  unfold check
  split <;> simp_all

/-- A value that fits passes the check. -/
theorem check_of_fits {w : Width} {value : UInt64} (h : w.Fits value) : w.check value = .ok () :=
  if_pos h

/-- The failure names the value and the bits that there are for it. -/
theorem check_of_not_fits {w : Width} {value : UInt64} (h : ¬ w.Fits value) :
    w.check value = .error (.valueTooWide value w.bits) := if_neg h

/-- A value fits its own least width. -/
theorem fits_least (value : UInt64) : (least value).Fits value :=
  Nat.lt_log2_self

end Width

end TextIndex
