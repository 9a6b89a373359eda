import Mathlib.Data.List.Basic
import TextIndex.Plan.Cost

/-!
# The order of siblings

Consulting the cost table changes only what the table remembers, and ordering siblings by their costs
only permutes them. This holds whatever the costs are, also where a cost has gone beyond 64 bits.
-/

set_option autoImplicit false

namespace TextIndex.CostTable

variable {K : Type} [DecidableEq K]

/-- There is one cost for each of several kinds, and the registry stays. -/
theorem costs_spec (ks : List K) (t : CostTable K) :
    (costs ks t).1.length = ks.length ∧ (costs ks t).2.registry = t.registry := by
  unfold costs
  induction ks generalizing t with
  | nil => exact ⟨rfl, rfl⟩
  | cons k ks ih =>
    obtain ⟨hlen, hreg⟩ := ih (cost k t).2
    rw [List.mapM_cons]
    exact ⟨congrArg (· + 1) hlen, hreg⟩

/-- The construction order lists the siblings, each as often as they do. -/
theorem constructionOrder_perm (siblings : List K) (t : CostTable K) :
    (constructionOrder siblings t).1.Perm siblings := by
  have hperm := (List.mergeSort_perm (siblings.zip (costs siblings t).1)
    (fun a b => decide (b.2 ≤ a.2))).map Prod.fst
  have hfst : (siblings.zip (costs siblings t).1).map Prod.fst = siblings :=
    List.map_fst_zip (Nat.le_of_eq (costs_spec siblings t).1.symm)
  rw [hfst, ← sort_eq_mergeSort] at hperm
  exact hperm

/-- Putting siblings in order changes nothing in the registry. -/
@[simp] theorem registry_constructionOrder (siblings : List K) (t : CostTable K) :
    (constructionOrder siblings t).2.registry = t.registry :=
  (costs_spec siblings t).2

/-- The order of the requirements of a kind lists them, each once. -/
theorem dependencyOrder_perm (k : K) (t : CostTable K) :
    (dependencyOrder k t).1.Perm (t.registry.requirements k) :=
  constructionOrder_perm _ t

/-- Putting requirements in order changes nothing in the registry. -/
@[simp] theorem registry_dependencyOrder (k : K) (t : CostTable K) :
    (dependencyOrder k t).2.registry = t.registry :=
  registry_constructionOrder _ t

end TextIndex.CostTable
