import TextIndex.Plan.Registry

/-!
# What a request reaches

The kinds that a list of kinds needs are the kinds themselves, what they require, what that
requires, and so on.
-/

set_option autoImplicit false

namespace TextIndex.Registry

variable {K : Type} [DecidableEq K]

/-- Adds to `seen` a kind and everything it requires, following at most `depth` steps. -/
def reachWithin (r : Registry K) : Nat → KindSet K → K → KindSet K
  | 0, seen, _ => seen
  | depth + 1, seen, k =>
    if k ∈ seen then seen
    else (r.requirements k).foldl (reachWithin r depth) (seen.insert k)

/-- The given kinds and everything they require. -/
def needed (r : Registry K) (ks : List K) : KindSet K := ks.foldl (r.reachWithin r.depth) .empty

/-- What building the given kinds touches: everything they need, and what appears on the side. -/
def touched (r : Registry K) (ks : List K) : KindSet K :=
  let needed := r.needed ks
  needed.insertAll (needed.toList.flatMap r.byproducts)

end TextIndex.Registry
