import TextIndex.Store.Basic
import TextIndex.Structure.SuffixArray
import TextIndex.Structure.CommonPrefix
import TextIndex.Structure.Transform
import TextIndex.Plan.Manager

/-!
# Building into a store

The store is the manager of its structures: it builds a kind from those that are there, releases it,
and shrinks it. What is built uncompressed has the configured width, or that of a byte for the
transform; what is built compressed has the least width that holds its greatest possible or actual
entry. The permuted prefix array is built in the storage of the phi array, which is thereby used up,
unless others still need it.
-/

set_option autoImplicit false

namespace TextIndex.Store

/-- Steps on a store that may fail. -/
abbrev StoreM := EStateM IndexError Store

/-- A refusal by a packed vector is a failure of the store. -/
def ofVector {α : Type} : Except VectorError α → StoreM α
  | .ok a => pure a
  | .error e => throw (.storage e)

/-- The structure of a kind that has to be there. -/
def demand (k : Kind) : StoreM PackedVector := do
  match (← get).get? k with
  | some v => return v
  | none => throw (.missing k)

/-- The structure of a kind that has to be there, taken out of its slot. -/
def demandOwned (k : Kind) : StoreM PackedVector := do
  let (taken, rest) := (← get).take k
  set rest
  match taken with
  | some v => return v
  | none => throw (.missing k)

/-- The width of an array of positions. -/
def positionWidth (s : Store) (compressed : Bool) : Width :=
  if compressed then .least (s.text.size - 1).toUInt64 else s.width

/-- The largest byte of the text. -/
def largestByte (s : Store) : UInt8 := s.text.bytes.foldl max 0

/-- The storage in which the permuted prefix array is built: that of the phi array, or a copy of it if
others still need it. -/
def phiStorage : StoreM PackedVector := do
  if ((← get).flags .phi).shared then
    return (← demand .phi).copy
  else demandOwned .phi

/-- Builds a kind from those that are there. -/
def build (k : Kind) (compressed : Bool) : StoreM Unit := do
  let s ← get
  let text := s.text.bytes
  let positions := s.positionWidth compressed
  match k with
  | .suffixArray =>
    let pair ← ofVector (SuffixArray.build text positions)
    modify (·.put .suffixArray pair.positions compressed)
    if ¬ (← get).isLive .inverse then
      modify (·.put .inverse pair.ranks compressed)
  | .inverse =>
    let v ← ofVector (SuffixArray.invert (← demand .suffixArray) positions)
    modify (·.put k v compressed)
  | .phi =>
    let v ← ofVector (CommonPrefix.phi (← demand .suffixArray) positions)
    modify (·.put k v compressed)
  | .plcp =>
    let v ← ofVector (CommonPrefix.plcp text (← phiStorage))
    modify (·.put k (if compressed then v.bitCompress else v) compressed)
  | .lcp =>
    let plcp ← demand .plcp
    let width := if compressed then .least plcp.maxValue else s.width
    let v ← ofVector (CommonPrefix.lcp (← demand .suffixArray) plcp width)
    modify (·.put k v compressed)
  | .bwt =>
    let width := if compressed then .least s.largestByte.toUInt64 else .byte
    let v ← ofVector (Transform.build text (← demand .suffixArray) width)
    modify (·.put k v compressed)

/-- The structure at its least width: for positions that of the last position of the text, and for
other entries that of the largest. -/
def shrunk (s : Store) (k : Kind) (v : PackedVector) : Except VectorError PackedVector :=
  if k.holdsPositions then (v.setWidth (s.positionWidth true)).map PackedVector.shrinkToFit
  else .ok v.bitCompress

/-- Brings the structure of a kind to its least width, if it is not known to be there already. -/
def compress (k : Kind) : StoreM Unit := do
  let s ← get
  if ¬ (s.flags k).compressed then
    let v ← demand k
    let v ← ofVector (s.shrunk k v)
    modify fun s =>
      (s.updateSlot k fun slot => ⟨{ slot.flags with compressed := true }, some v⟩).refresh

/-- Builds a kind, or uses the structure that is there. -/
def construct (k : Kind) (compressed : Bool) : StoreM Unit := do
  if (← get).isLive k then
    if compressed then compress k
  else build k compressed

/-- The store as the manager of its structures. -/
def manager : Manager Kind IndexError Store where
  ensure k := modify (·.updateFlags k fun f => { f with registered := true })
  construct := construct
  discard k _ s := s.remove k
  protect k s := s.updateFlags k fun f => { f with shared := true }
  unprotect k s := s.updateFlags k fun f => { f with shared := false }
  compress := compress

end TextIndex.Store
