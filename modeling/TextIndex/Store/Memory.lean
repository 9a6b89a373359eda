/-!
# Memory statistics

The bytes that the structures hold now, and the most they have held since the measurement began.
-/

set_option autoImplicit false

namespace TextIndex

/-- Bytes held, now and at most. -/
structure MemoryStats where
  current : Nat
  peak : Nat
deriving DecidableEq, Repr

namespace MemoryStats

/-- Nothing held yet. -/
def zero : MemoryStats := ⟨0, 0⟩

/-- The structures hold `bytes` from here on. -/
def record (m : MemoryStats) (bytes : Nat) : MemoryStats := ⟨bytes, max m.peak bytes⟩

/-- The measurement begins anew. -/
def resetPeak (m : MemoryStats) : MemoryStats := ⟨m.current, m.current⟩

end MemoryStats

end TextIndex
