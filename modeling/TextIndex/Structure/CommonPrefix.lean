import TextIndex.Packed.Vector

/-!
# Common prefixes of neighbouring suffixes

How far a suffix agrees with the one before it in the suffix array is found in text order, because
from one position to the next that length falls by at most one. The phi array says which suffix to
compare with, and the lengths can be written over it: an entry is read before it is replaced and not
looked at again.
-/

set_option autoImplicit false

namespace TextIndex.CommonPrefix

/-- The phi array: at each position the position before it in the suffix array; the first takes the
last. -/
def phi (sa : PackedVector) (w : Width) : Except VectorError PackedVector := do
  let blank ← PackedVector.replicate? w sa.length 0
  let last := (sa.get? (sa.length - 1)).getD 0
  let positions := sa.toList
  (positions.zip (last :: positions)).foldlM (fun v p => v.set p.1.toNat p.2) blank

/-- Extends a common prefix of the suffixes at `i` and `j`, of which the first `len` bytes are known
to agree, by at most `bound` bytes. -/
def extend (text : Array UInt8) (i j : Nat) : Nat → Nat → Nat
  | 0, len => len
  | bound + 1, len =>
    match text[i + len]?, text[j + len]? with
    | some a, some b => if a = b then extend text i j bound (len + 1) else len
    | _, _ => len

/-- Replaces the phi entry of position `i`. The state holds the array and the least length that the
entry can have. -/
def step (text : Array UInt8) (state : PackedVector × Nat) (i : Nat) :
    Except VectorError (PackedVector × Nat) := do
  let j := ((state.1.get? i).getD 0).toNat
  let len := extend text i j text.size state.2
  let v ← state.1.set i len.toUInt64
  return (v, len - 1)

/-- Turns a phi array into the common prefix lengths by position. The last suffix is the sentinel
alone and agrees with nothing. -/
def plcp (text : Array UInt8) (phi : PackedVector) : Except VectorError PackedVector := do
  let done ← (List.range (text.size - 1)).foldlM (step text) (phi, 0)
  if text.size = 0 then return done.1 else done.1.set (text.size - 1) 0

/-- The common prefix lengths by rank; the first suffix has none before it. -/
def lcp (sa plcp : PackedVector) (w : Width) : Except VectorError PackedVector := do
  let blank ← PackedVector.replicate? w sa.length 0
  (sa.toList.zipIdx.drop 1).foldlM
    (fun v p => v.set p.2 ((plcp.get? p.1.toNat).getD 0)) blank

end TextIndex.CommonPrefix
