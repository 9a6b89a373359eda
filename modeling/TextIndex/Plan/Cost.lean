import TextIndex.Plan.Registry
import TextIndex.Sorting

/-!
# Costs and the order of siblings

The cost of a kind is the number of its requirements plus the costs of each of them, so a kind that
is reached in several ways counts once for each. Costs are 64-bit numbers, and what goes beyond is
lost. They are only used to rank siblings: the dearest is built first, so that a large subtree is
built and torn down before a small one starts.

A cost table remembers every cost it has computed; without that, shared requirements would be walked
again for every path to them.
-/

set_option autoImplicit false

namespace TextIndex

/-- A registry together with the costs computed so far. -/
structure CostTable (K : Type) where
  registry : Registry K
  known : KindMap K UInt64

namespace CostTable

variable {K : Type}

/-- Nothing computed yet. -/
def new (r : Registry K) : CostTable K := ⟨r, .empty⟩

variable [DecidableEq K]

/-- The cost of a kind, by a recursion of at most `depth` levels, with the costs known after it. -/
def costWithin (r : Registry K) : Nat → K → KindMap K UInt64 → UInt64 × KindMap K UInt64
  | 0, _, known => (0, known)
  | depth + 1, k, known =>
    match known.get? k with
    | some c => (c, known)
    | none =>
      let below := (r.requirements k).foldl (fun sum q =>
        let answer := costWithin r depth q sum.2
        (sum.1 + answer.1, answer.2)) (0, known)
      let c := (r.inDegree k).toUInt64 + below.1
      (c, below.2.put k c)

/-- The cost of a kind; the table remembers it. -/
def cost (k : K) : StateM (CostTable K) UInt64 := fun t =>
  let answer := costWithin t.registry t.registry.depth k t.known
  (answer.1, { t with known := answer.2 })

/-- The costs of several kinds. -/
def costs (ks : List K) : StateM (CostTable K) (List UInt64) := ks.mapM cost

/-- Siblings by descending cost; those of equal cost keep their order. -/
def constructionOrder (siblings : List K) : StateM (CostTable K) (List K) := do
  let cs ← costs siblings
  return (sort (fun a b => b.2 ≤ a.2) (siblings.zip cs)).map Prod.fst

/-- The direct requirements of a kind by descending cost. -/
def dependencyOrder (k : K) : StateM (CostTable K) (List K) := do
  constructionOrder ((← get).registry.requirements k)

end CostTable

end TextIndex
