/-!
# What a run did

A schedule lists the kinds that a run built, released and compressed, each in the order in which it
happened, and the greatest number of scheduled kinds that were there at once. Kinds that appeared on
the side and were released at once are listed as released but not counted.
-/

set_option autoImplicit false

namespace TextIndex

/-- The account of a run. -/
structure Schedule (K : Type) where
  constructed : List K
  discarded : List K
  /-- Only compressions after construction: what is built compressed is not listed. -/
  compressed : List K
  peakLive : Nat
deriving DecidableEq, Repr

namespace Schedule

variable {K : Type}

/-- Nothing done. -/
def empty : Schedule K := ⟨[], [], [], 0⟩

/-- One more kind built, after which `live` kinds are there. -/
def addConstructed (s : Schedule K) (k : K) (live : Nat) : Schedule K :=
  { s with constructed := s.constructed ++ [k], peakLive := max s.peakLive live }

/-- One more kind released. -/
def addDiscarded (s : Schedule K) (k : K) : Schedule K := { s with discarded := s.discarded ++ [k] }

/-- One more kind compressed. -/
def addCompressed (s : Schedule K) (k : K) : Schedule K :=
  { s with compressed := s.compressed ++ [k] }

end Schedule

end TextIndex
