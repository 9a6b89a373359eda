import TextIndex.Store.Memory
import TextIndex.Store.Slot
import TextIndex.Structure.Kind
import TextIndex.Structure.SentinelText
import TextIndex.Plan.Mode

/-!
# The store of a text

A store holds a text, a slot for each kind of structure, and the memory statistics. Every change of a
slot's structure updates the statistics.
-/

set_option autoImplicit false

namespace TextIndex

/-- How structures are built. -/
structure Config where
  /-- Bits per entry of what is built uncompressed. -/
  fullWidth : Nat := 32
  mode : Mode := .delayed
deriving DecidableEq, Repr

/-- Why a text is not indexed or a structure not built. -/
inductive IndexError where
  /-- The text has a zero byte. -/
  | sentinelInText (position : Nat)
  /-- The structure is needed and not there. -/
  | missing (kind : Kind)
  /-- A packed vector refused a width or a value. -/
  | storage (cause : VectorError)
deriving DecidableEq, Repr

/-- The sentence shown for a failure. -/
def IndexError.message : IndexError → String
  | .sentinelInText position => s!"text contains the sentinel byte 0 at position {position}"
  | .missing kind => s!"{kind.name} is not available"
  | .storage cause => cause.message

/-- A text and what has been built over it. -/
structure Store where
  text : SentinelText
  width : Width
  mode : Mode
  slots : Vector Slot 6
  stats : MemoryStats

namespace Store

/-- Nothing built. -/
def new (text : SentinelText) (width : Width) (mode : Mode) : Store :=
  ⟨text, width, mode, Vector.replicate 6 {}, .zero⟩

/-- The slot of a kind. -/
def slot (s : Store) (k : Kind) : Slot := s.slots[k.index]

/-- Changes the slot of a kind. -/
def updateSlot (s : Store) (k : Kind) (f : Slot → Slot) : Store :=
  { s with slots := s.slots.set k.index (f (s.slot k)) }

/-- Changes the marks of a kind. -/
def updateFlags (s : Store) (k : Kind) (f : SlotFlags → SlotFlags) : Store :=
  s.updateSlot k fun slot => { slot with flags := f slot.flags }

/-- The marks of a kind. -/
def flags (s : Store) (k : Kind) : SlotFlags := (s.slot k).flags

/-- The kind is marked as being there. -/
def isLive (s : Store) (k : Kind) : Bool := (s.flags k).live

/-- The structure of a kind, if it is there. -/
def get? (s : Store) (k : Kind) : Option PackedVector := (s.slot k).data

/-- Bytes that all structures hold together. -/
def heapBytes (s : Store) : Nat := Kind.all.foldl (fun sum k => sum + (s.slot k).heapBytes) 0

/-- Brings the statistics up to date. -/
def refresh (s : Store) : Store := { s with stats := s.stats.record s.heapBytes }

/-- Puts a structure into its slot. -/
def put (s : Store) (k : Kind) (v : PackedVector) (compressed : Bool) : Store :=
  (s.updateSlot k (·.fill v compressed)).refresh

/-- Takes the structure out of a slot. -/
def remove (s : Store) (k : Kind) : Store := (s.updateSlot k Slot.vacate).refresh

/-- Takes the structure of a kind out and hands it over. -/
def take (s : Store) (k : Kind) : Option PackedVector × Store := (s.get? k, s.remove k)

/-- Forgets which kinds a former run left shared. -/
def beginRun (s : Store) : Store :=
  Kind.all.foldl (fun s k => s.updateFlags k fun f => { f with shared := false }) s

/-- A copy of the store. Its structures reserve only what they use; the statistics are those of the
store until the next change. -/
def copy (s : Store) : Store := { s with slots := s.slots.map Slot.copy }

/-- The measurement of the greatest use begins anew. -/
def resetPeak (s : Store) : Store := { s with stats := s.stats.resetPeak }

/-- Changing a slot changes no other. -/
theorem slot_updateSlot (s : Store) (j k : Kind) (f : Slot → Slot) :
    (s.updateSlot k f).slot j = if j = k then f (s.slot k) else s.slot j := by
  simp only [updateSlot, slot, Fin.getElem_fin, Vector.getElem_set]
  by_cases h : j = k
  · simp [h]
  · have : ¬ (k.index : Nat) = j.index := fun e => h (Kind.index_inj.1 (Fin.ext e.symm))
    simp [h, this]

end Store

end TextIndex
