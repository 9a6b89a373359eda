import TextIndex.Plan.KindSet

/-!
# Providers

A provider says how one kind of structure comes about: which kinds it is built from, and which kinds
appear on the side while it is built. Both lists keep the order of declaration, and a kind declared
again is not listed twice.
-/

set_option autoImplicit false

namespace TextIndex

/-- What a kind is built from, and what else building it yields. -/
structure Provider (K : Type) where
  requirements : KindSet K
  byproducts : KindSet K
deriving DecidableEq

namespace Provider

variable {K : Type}

/-- Built from nothing, and yielding nothing else. -/
def leaf : Provider K := ⟨.empty, .empty⟩

/-- The number of kinds it is built from. -/
def inDegree (p : Provider K) : Nat := p.requirements.size

variable [DecidableEq K]

/-- Declares further requirements. -/
def requires (p : Provider K) (ks : List K) : Provider K :=
  { p with requirements := p.requirements.insertAll ks }

/-- Declares further byproducts. -/
def yields (p : Provider K) (ks : List K) : Provider K :=
  { p with byproducts := p.byproducts.insertAll ks }

end Provider

end TextIndex
