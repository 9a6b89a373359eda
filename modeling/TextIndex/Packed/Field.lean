import TextIndex.Packed.Buffer

/-!
# Bit fields in an array of words

Field `i` of width `w` is the run of `w` bits that starts at bit `i * w`, counted from the least
significant bit of the first word. A field may lie across the boundary of two words: then its low
part is at the top of the first word, and the rest, the spill, at the bottom of the next.

Like the size of the storage, the first bit of a field is a product that a 64-bit counter takes modulo
two to the power 64. Reading and writing speak of fields all of whose words are there; which are not is
told by `missing?`, and there a program ends.
-/

set_option autoImplicit false

namespace TextIndex.Field

/-- The bit at which field `i` starts. -/
def start (w : Width) (i : Nat) : Nat := i * w.bits % UInt64.size

/-- The word in which field `i` starts. -/
def word (w : Width) (i : Nat) : Nat := start w i / 64

/-- The bit of that word at which field `i` starts. -/
def offset (w : Width) (i : Nat) : Nat := start w i % 64

/-- Field `i` ends in the word after the one it starts in. -/
def Spills (w : Width) (i : Nat) : Prop := 64 < offset w i + w.bits

instance (w : Width) (i : Nat) : Decidable (Spills w i) :=
  inferInstanceAs (Decidable (64 < offset w i + w.bits))

/-- The first word of field `i` that is not among `size` words, if one is not. -/
def missing? (size : Nat) (w : Width) (i : Nat) : Option Nat :=
  if size ≤ word w i then some (word w i)
  else if Spills w i ∧ size ≤ word w i + 1 then some (word w i + 1)
  else none

/-- The value of field `i`. A word that is missing counts as zero, though no program gets to see that. -/
def read (words : Array UInt64) (w : Width) (i : Nat) : UInt64 :=
  let low := words.getD (word w i) 0 >>> (offset w i).toUInt64
  let whole :=
    if Spills w i then low ||| (words.getD (word w i + 1) 0 <<< (64 - offset w i).toUInt64) else low
  whole &&& w.mask

/-- One word with the bits of `hole` replaced by those of `bits`. -/
def patch (words : Array UInt64) (place : Nat) (hole bits : UInt64) : Array UInt64 :=
  words.modify place fun old => (old &&& ~~~hole) ||| bits

/-- The words after `value` is put into field `i`; every other bit stays. -/
def write (words : Array UInt64) (w : Width) (i : Nat) (value : UInt64) : Array UInt64 :=
  let shift := (offset w i).toUInt64
  let low := patch words (word w i) (w.mask <<< shift) (value <<< shift)
  if Spills w i then
    let spill := (64 - offset w i).toUInt64
    patch low (word w i + 1) (w.mask >>> spill) (value >>> spill)
  else low

/-- Patching a word adds none. -/
@[simp] theorem size_patch (words : Array UInt64) (place : Nat) (hole bits : UInt64) :
    (patch words place hole bits).size = words.size := by
  simp [patch]

/-- Writing a field adds no words, even where the field lies outside. -/
@[simp] theorem size_write (words : Array UInt64) (w : Width) (i : Nat) (value : UInt64) :
    (write words w i value).size = words.size := by
  unfold write
  split <;> simp

end TextIndex.Field
