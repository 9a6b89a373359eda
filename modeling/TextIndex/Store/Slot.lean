import TextIndex.Packed.Vector

/-!
# Slots

A store keeps a slot for every kind of structure: the structure, if it is there, and four marks.
-/

set_option autoImplicit false

namespace TextIndex

/-- The marks of a slot. -/
structure SlotFlags where
  /-- The planner has asked for the kind to be made ready. -/
  registered : Bool := false
  /-- The structure is there. -/
  live : Bool := false
  /-- Several consumers still need the structure. -/
  shared : Bool := false
  /-- The structure is at its least width. -/
  compressed : Bool := false
deriving DecidableEq, Repr

namespace SlotFlags

/-- The marks as a binary number, the first one lowest. -/
def bits (f : SlotFlags) : Nat :=
  f.registered.toNat + 2 * f.live.toNat + 4 * f.shared.toNat + 8 * f.compressed.toNat

/-- The names of the marks that are set. -/
def names (f : SlotFlags) : List String :=
  (if f.registered then ["REGISTERED"] else []) ++ (if f.live then ["LIVE"] else []) ++
    (if f.shared then ["PROTECTED"] else []) ++ (if f.compressed then ["COMPRESSED"] else [])

/-- The names joined by bars, and a zero where no mark is set. -/
def render (f : SlotFlags) : String :=
  let marks := if f.names.isEmpty then "0x0" else " | ".intercalate f.names
  s!"SlotFlags({marks})"

end SlotFlags

/-- The place of one structure. -/
structure Slot where
  flags : SlotFlags := {}
  data : Option PackedVector := none

namespace Slot

/-- Bytes that the slot's structure holds. -/
def heapBytes (s : Slot) : Nat := (s.data.map PackedVector.heapBytes).getD 0

/-- The slot with a structure in it. -/
def fill (s : Slot) (v : PackedVector) (compressed : Bool) : Slot :=
  ⟨{ s.flags with live := true, compressed }, some v⟩

/-- The slot without its structure. -/
def vacate (s : Slot) : Slot := ⟨{ s.flags with live := false, compressed := false }, none⟩

/-- The slot with its structure in storage of its own. -/
def copy (s : Slot) : Slot := { s with data := s.data.map PackedVector.copy }

end Slot

end TextIndex
