import TextIndex.Packed.Vector

/-!
# The Burrows-Wheeler transform

For each suffix in order, the byte before it. The text is taken as a circle: before its first byte
stands the sentinel at its end.
-/

set_option autoImplicit false

namespace TextIndex.Transform

/-- The byte before position `i`, on the circle. -/
def byteBefore (text : Array UInt8) (i : Nat) : UInt8 :=
  if i = 0 then text.getD (text.size - 1) 0 else text.getD (i - 1) 0

/-- The transform of a text with the given suffix array. -/
def build (text : Array UInt8) (sa : PackedVector) (w : Width) : Except VectorError PackedVector :=
  PackedVector.ofList? w (sa.toList.map fun i => (byteBefore text i.toNat).toUInt64)

end TextIndex.Transform
