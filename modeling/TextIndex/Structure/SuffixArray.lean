import TextIndex.Packed.Vector
import TextIndex.Sorting

/-!
# Suffix arrays by prefix doubling

Every position of a text starts a suffix. Suffixes are ranked by their first bytes, then by twice as
many, and so on: a suffix is compared by the rank of its first half and then of its second half,
both known from the round before. When all ranks differ, the ranks are the inverse of the suffix
array.
-/

set_option autoImplicit false

namespace TextIndex.SuffixArray

/-- The two ranks by which position `i` is compared: its own, and that of the position `k` further
on, where a position past the end comes before every other. -/
def key (rank : Array Nat) (k i : Nat) : Nat × Nat :=
  (rank.getD i 0, match rank[i + k]? with
    | some r => r + 1
    | none => 0)

/-- The first key is before the second. -/
def keyLt (a b : Nat × Nat) : Bool := a.1 < b.1 || (a.1 == b.1 && a.2 < b.2)

/-- The positions in the order of their keys. -/
def sortedPositions (rank : Array Nat) (k : Nat) : List Nat :=
  sort (fun i j => !keyLt (key rank k j) (key rank k i)) (List.range rank.size)

/-- Numbers sorted positions from `c`: a position gets the number of the one before it unless its key
is greater. -/
def classes (keyOf : Nat → Nat × Nat) : Nat → List Nat → List Nat
  | _, [] => []
  | c, [_] => [c]
  | c, i :: j :: rest =>
    c :: classes keyOf (if keyLt (keyOf i) (keyOf j) then c + 1 else c) (j :: rest)

/-- Puts each value at its position. -/
def scatter (positions values : List Nat) (into : Array Nat) : Array Nat :=
  (positions.zip values).foldl (fun a p => a.setIfInBounds p.1 p.2) into

/-- Positions in order, and the rank of each. -/
structure Ranking where
  positions : List Nat
  ranks : Array Nat

/-- One round: ranks by `k` bytes become ranks by `2 * k` bytes. -/
def refine (rank : Array Nat) (k : Nat) : Ranking :=
  let positions := sortedPositions rank k
  ⟨positions, scatter positions (classes (key rank k) 0 positions) rank⟩

/-- All ranks differ: the last position has the greatest rank there can be. -/
def Ranking.isFinal (r : Ranking) : Bool :=
  match r.positions.getLast? with
  | some i => r.ranks.getD i 0 + 1 == r.ranks.size
  | none => true

/-- Rounds until all ranks differ, at most `rounds` of them. -/
def rankWithin : Nat → Array Nat → Nat → Ranking
  | 0, rank, _ => ⟨[], rank⟩
  | rounds + 1, rank, k =>
    let next := refine rank k
    if next.isFinal then next else rankWithin rounds next.ranks (2 * k)

/-- The suffixes of a text in order. As the number of bytes compared doubles each time, there are
never more rounds than bytes. -/
def rankSuffixes (text : Array UInt8) : Ranking :=
  rankWithin text.size (text.map UInt8.toNat) 1

/-- Positions as elements of a packed vector. -/
def pack (w : Width) (positions : List Nat) : Except VectorError PackedVector :=
  PackedVector.ofList? w (positions.map Nat.toUInt64)

/-- The suffix array and its inverse. -/
structure Pair where
  positions : PackedVector
  ranks : PackedVector

/-- Builds the suffix array and, from the last ranks, its inverse. -/
def build (text : Array UInt8) (w : Width) : Except VectorError Pair := do
  let ranking := rankSuffixes text
  let positions ← pack w ranking.positions
  let ranks ← pack w ranking.ranks.toList
  return ⟨positions, ranks⟩

/-- The inverse of a suffix array: at each position, its rank. -/
def invert (sa : PackedVector) (w : Width) : Except VectorError PackedVector := do
  let blank ← PackedVector.replicate? w sa.length 0
  sa.toList.zipIdx.foldlM (fun v p => v.set p.1.toNat p.2.toUInt64) blank

end TextIndex.SuffixArray
