import TextIndex.Plan.Reach
import TextIndex.Plan.Run
import TextIndex.Store.Build

/-!
# Text indexes

A text index is a text with the structures built over it. Structures are built on demand in a run of
the planner, so that what is needed only on the way is released as early as can be, and what is asked
for ends up compressed as the mode says. Structures that are held already are used again.
-/

set_option autoImplicit false

namespace TextIndex

/-- A text together with the structures built over it. -/
structure Index where
  store : Store

namespace Index

/-- Why a run over a text stops. -/
abbrev ConstructError := ScheduleError Kind IndexError

/-- An index over the given bytes, with nothing built. The width is checked before the text. -/
def new (bytes : Array UInt8) (config : Config) : Except IndexError Index :=
  match Width.ofNat? config.fullWidth with
  | .error e => .error (.storage e)
  | .ok width =>
    match SentinelText.ofBytes? bytes with
    | .error position => .error (.sentinelInText position)
    | .ok text => .ok ⟨.new text width config.mode⟩

/-- Kinds held already, other than the given ones, that building those would touch. -/
def heldInRun (ix : Index) (kinds : List Kind) : List Kind :=
  let touched := Kind.registry.touched kinds
  Kind.all.filter fun k => k ∈ touched ∧ ix.store.isLive k ∧ k ∉ kinds

/-- Builds the given kinds in one run. Held structures that the run touches are requested with them, so
that they are used and not lost. -/
def construct (kinds : List Kind) : EStateM ConstructError Index (Schedule Kind) := fun ix =>
  let requested := kinds ++ ix.heldInRun kinds
  match constructAll Kind.registry Store.manager requested ix.store.mode ix.store.beginRun with
  | .ok schedule store => .ok schedule ⟨store⟩
  | .error e store => .error e ⟨store⟩

/-- The structure of a kind, if it is held. -/
def get? (ix : Index) (k : Kind) : Option PackedVector := ix.store.get? k

/-- The structure of a kind, built first if it is not held. -/
def require (k : Kind) : EStateM ConstructError Index PackedVector := do
  if ¬ (← get).store.isLive k then
    discard (construct [k])
  match (← get).get? k with
  | some v => return v
  | none => throw (.manager k (.missing k))

/-- Takes the structure of a kind out of the index. -/
def take (ix : Index) (k : Kind) : Option PackedVector × Index :=
  let (taken, store) := ix.store.take k
  (taken, ⟨store⟩)

/-- Brings the structure of a kind to its least width. -/
def compress (k : Kind) : EStateM IndexError Index Unit := fun ix =>
  match Store.compress k ix.store with
  | .ok u store => .ok u ⟨store⟩
  | .error e store => .error e ⟨store⟩

/-- A copy of the index. -/
def copy (ix : Index) : Index := ⟨ix.store.copy⟩

/-- The measurement of the greatest use begins anew. -/
def resetPeak (ix : Index) : Index := ⟨ix.store.resetPeak⟩

end Index

end TextIndex
