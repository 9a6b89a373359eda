import TextIndex.Proofs.Plan.Layers
import TextIndex.Proofs.Plan.SiblingOrder

/-!
# Which kind is built next

A cost table remembers what it has computed, so consulting it changes it. On a layered registry this
cannot be seen from outside: there are prices that agree with every cost the table remembers and add
up for the others (`Priced`), an answer is a price, and consulting the table keeps the prices. The
order of siblings is therefore the same whatever was asked before.

The recursion of the evaluation phase then has no memory of its own. Which kind it builds next can be
read off the table and the kinds built so far (`next`).
-/

set_option autoImplicit false

namespace TextIndex.CostTable

variable {K : Type} [DecidableEq K]

/-! ## Prices -/

/-- The cost of a kind when its requirements have the given prices. -/
def expense (r : Registry K) (price : K → UInt64) (k : K) : UInt64 :=
  (r.inDegree k).toUInt64 + (r.requirements k).foldl (fun sum q => sum + price q) 0

/-- What a kind costs depends on the prices of its requirements only. -/
theorem expense_congr {r : Registry K} {price price' : K → UInt64} {k : K}
    (h : ∀ q ∈ r.requirements k, price q = price' q) : expense r price k = expense r price' k := by
  unfold expense
  rw [List.foldl_ext _ (fun sum q => sum + price' q) 0 fun sum q hq => by rw [h q hq]]

/-- A known cost is the price of its kind, and the other prices add up. -/
def Priced (r : Registry K) (known : KindMap K UInt64) (price : K → UInt64) : Prop :=
  ∀ k, price k = (known.get? k).getD (expense r price k)

/-- The price of a kind within `depth` levels of requirements. -/
def priceWithin (r : Registry K) (known : KindMap K UInt64) : Nat → K → UInt64
  | 0, _ => 0
  | depth + 1, k => (known.get? k).getD (expense r (priceWithin r known depth) k)

/-- All depths above its level give a kind the same price. -/
theorem priceWithin_eq {r : Registry K} (L : r.Layers) (known : KindMap K UInt64) (depth : Nat) :
    ∀ {depth' : Nat} {k : K}, L.level k < depth → L.level k < depth' →
      priceWithin r known depth k = priceWithin r known depth' k := by
  induction depth with
  | zero =>
    intro depth' k h
    exact absurd h (Nat.not_lt_zero _)
  | succ depth ih =>
    intro depth' k h h'
    cases depth' with
    | zero => exact absurd h' (Nat.not_lt_zero _)
    | succ depth' =>
      unfold priceWithin
      rw [expense_congr fun q hq => ?_]
      have hlt := L.level_lt hq
      exact ih (by omega) (by omega)

/-- On a layered registry there are prices for whatever costs are known. -/
theorem exists_priced {r : Registry K} (L : r.Layers) (known : KindMap K UInt64) :
    ∃ price, Priced r known price := by
  refine ⟨fun k => priceWithin r known (L.level k + 1) k, fun k => ?_⟩
  show priceWithin r known (L.level k + 1) k = _
  unfold priceWithin
  rw [expense_congr fun q hq => ?_]
  exact priceWithin_eq L known _ (L.level_lt hq) (Nat.lt_succ_self _)

/-- To remember the price of a kind changes no price. -/
theorem Priced.put {r : Registry K} {known : KindMap K UInt64} {price : K → UInt64}
    (h : Priced r known price) (k : K) : Priced r (known.put k (price k)) price := by
  intro j
  rw [KindMap.get?_put]
  split
  · next hj => rw [hj, Option.getD_some]
  · exact h j

/-- To ask for several costs in a row adds up their prices. -/
theorem foldl_priced {r : Registry K} {price : K → UInt64}
    (ask : K → KindMap K UInt64 → UInt64 × KindMap K UInt64) (qs : List K)
    (hask : ∀ q ∈ qs, ∀ {known : KindMap K UInt64}, Priced r known price →
      (ask q known).1 = price q ∧ Priced r (ask q known).2 price)
    (sum : UInt64) {known : KindMap K UInt64} (h : Priced r known price) :
    (qs.foldl (fun sum q => (sum.1 + (ask q sum.2).1, (ask q sum.2).2)) (sum, known)).1 =
        qs.foldl (fun sum q => sum + price q) sum ∧
      Priced r (qs.foldl (fun sum q => (sum.1 + (ask q sum.2).1, (ask q sum.2).2))
        (sum, known)).2 price := by
  induction qs generalizing sum known with
  | nil => exact ⟨rfl, h⟩
  | cons q qs ih =>
    obtain ⟨hcost, hknown⟩ := hask q List.mem_cons_self h
    simp only [List.foldl_cons, hcost]
    exact ih (fun q' hq' => hask q' (List.mem_cons_of_mem _ hq')) _ hknown

/-- The cost of a kind is its price, and what is known afterwards has the same prices. -/
theorem costWithin_priced {r : Registry K} (L : r.Layers) {price : K → UInt64} (depth : Nat) :
    ∀ {k : K} {known : KindMap K UInt64}, L.level k < depth → Priced r known price →
      (costWithin r depth k known).1 = price k ∧
        Priced r (costWithin r depth k known).2 price := by
  induction depth with
  | zero =>
    intro k known h
    exact absurd h (Nat.not_lt_zero _)
  | succ depth ih =>
    intro k known hlevel h
    have hk := h k
    unfold costWithin
    cases hget : known.get? k with
    | some c =>
      rw [hget, Option.getD_some] at hk
      exact ⟨hk.symm, h⟩
    | none =>
      rw [hget, Option.getD_none] at hk
      obtain ⟨hsum, hknown⟩ := foldl_priced (costWithin r depth) (r.requirements k)
        (fun q hq _ hq' => ih (by have := L.level_lt hq; omega) hq') 0 h
      refine ⟨(congrArg ((r.inDegree k).toUInt64 + ·) hsum).trans hk.symm, ?_⟩
      have hput := hknown.put k
      rwa [hk, expense, ← hsum] at hput

/-- The costs of several kinds are their prices. -/
theorem costs_priced {t : CostTable K} (L : t.registry.Layers) {price : K → UInt64}
    (h : Priced t.registry t.known price) (ks : List K) :
    (costs ks t).1 = ks.map price ∧ Priced t.registry (costs ks t).2.known price := by
  unfold costs
  induction ks generalizing t with
  | nil => exact ⟨rfl, h⟩
  | cons k ks ih =>
    obtain ⟨hcost, hknown⟩ := costWithin_priced L t.registry.depth (L.level_lt_depth k) h
    obtain ⟨hcosts, hknown'⟩ := ih (t := (cost k t).2) L hknown
    rw [List.mapM_cons]
    exact ⟨congrArg₂ List.cons hcost hcosts, hknown'⟩

/-! ## The order of siblings -/

/-- The siblings in the order in which the table has them built. -/
def siblings (t : CostTable K) (ks : List K) : List K := (constructionOrder ks t).1

/-- Putting siblings in order loses none of them. -/
theorem siblings_perm (t : CostTable K) (ks : List K) : (t.siblings ks).Perm ks :=
  constructionOrder_perm ks t

/-- The prices decide the order. -/
theorem siblings_eq {t : CostTable K} (L : t.registry.Layers) {price : K → UInt64}
    (h : Priced t.registry t.known price) (ks : List K) :
    t.siblings ks = (sort (fun a b => b.2 ≤ a.2) (ks.zip (ks.map price))).map Prod.fst := by
  show (sort (fun a b => b.2 ≤ a.2) (ks.zip (costs ks t).1)).map Prod.fst = _
  rw [(costs_priced L h ks).1]

/-- To ask for one order does not change another one. -/
theorem siblings_constructionOrder {t : CostTable K} (L : t.registry.Layers) (ks js : List K) :
    (constructionOrder ks t).2.siblings js = t.siblings js := by
  obtain ⟨price, h⟩ := exists_priced L t.known
  have hregistry := registry_constructionOrder ks t
  have hknown : Priced t.registry (constructionOrder ks t).2.known price := (costs_priced L h ks).2
  have hpriced : Priced (constructionOrder ks t).2.registry (constructionOrder ks t).2.known price :=
    hregistry.symm ▸ hknown
  rw [siblings_eq L h, siblings_eq (hregistry.symm ▸ L) hpriced]

/-! ## The next kind -/

/-- The first unbuilt kind at or below `k` whose requirements are all built, in the order of the
recursion, and whether the client's own list leads to it. -/
def nextBelow (t : CostTable K) (built : KindSet K) : Nat → Bool → K → Option (K × Bool)
  | 0, _, _ => none
  | depth + 1, top, k =>
    if k ∈ built then none
    else ((t.siblings (t.registry.requirements k)).findSome? (nextBelow t built depth false)).or
      (some (k, top))

/-- The kind that is built next on the way to the requested ones. -/
def next (t : CostTable K) (built : KindSet K) (requested : List K) : Option (K × Bool) :=
  (t.siblings requested).findSome? (nextBelow t built t.registry.depth true)

/-- There is nothing to build for a kind that has been built. -/
theorem nextBelow_of_built {t : CostTable K} {built : KindSet K} {k : K} (h : k ∈ built)
    (depth : Nat) (top : Bool) : nextBelow t built depth top k = none := by
  cases depth with
  | zero => rfl
  | succ depth =>
    unfold nextBelow
    rw [if_pos h]

/-- A kind is next when all its requirements have been built. -/
theorem nextBelow_of_requirements {t : CostTable K} {built : KindSet K} {k : K} (h : k ∉ built)
    (hreq : ∀ q ∈ t.registry.requirements k, q ∈ built) (depth : Nat) (top : Bool) :
    nextBelow t built (depth + 1) top k = some (k, top) := by
  unfold nextBelow
  rw [if_neg h, List.findSome?_eq_none_iff.2, Option.none_or]
  intro q hq
  exact nextBelow_of_built (hreq q ((siblings_perm t _).mem_iff.1 hq)) depth false

/-- Among siblings the walk passes over those that have been built. -/
theorem findSome?_siblings {t : CostTable K} {built : KindSet K} {ks done rest : List K} {q : K}
    {depth : Nat} {top : Bool} {answer : K × Bool} (hsplit : t.siblings ks = done ++ q :: rest)
    (hdone : ∀ x ∈ done, x ∈ built) (hq : nextBelow t built depth top q = some answer) :
    (t.siblings ks).findSome? (nextBelow t built depth top) = some answer := by
  rw [hsplit, List.findSome?_append, List.findSome?_eq_none_iff.2, Option.none_or,
    List.findSome?_cons, hq]
  exact fun x hx => nextBelow_of_built (hdone x hx) depth top

/-- What is next below a requirement is next below the kind itself. -/
theorem nextBelow_of_sibling {t : CostTable K} {built : KindSet K} {done rest : List K} {k q : K}
    {depth : Nat} {answer : K × Bool} (hk : k ∉ built)
    (hsplit : t.siblings (t.registry.requirements k) = done ++ q :: rest)
    (hdone : ∀ x ∈ done, x ∈ built) (hq : nextBelow t built depth false q = some answer)
    (top : Bool) : nextBelow t built (depth + 1) top k = some answer := by
  unfold nextBelow
  rw [if_neg hk, findSome?_siblings hsplit hdone hq, Option.some_or]

/-- Nothing is next when all that was requested has been built. -/
theorem next_of_built {t : CostTable K} {built : KindSet K} {requested : List K}
    (h : ∀ k ∈ requested, k ∈ built) : t.next built requested = none := by
  unfold next
  rw [List.findSome?_eq_none_iff]
  intro k hk
  exact nextBelow_of_built (h k ((siblings_perm t _).mem_iff.1 hk)) _ true

/-- Tables that order all siblings alike walk alike. -/
theorem nextBelow_congr {t t' : CostTable K} (hregistry : t'.registry = t.registry)
    (hsame : ∀ ks, t'.siblings ks = t.siblings ks) (built : KindSet K) (depth : Nat) :
    nextBelow t' built depth = nextBelow t built depth := by
  induction depth with
  | zero => rfl
  | succ depth ih =>
    funext top k
    unfold nextBelow
    rw [hregistry, hsame, ih]

/-- Tables that put siblings in the same order choose the same kind. -/
theorem next_congr {t t' : CostTable K} (hregistry : t'.registry = t.registry)
    (hsame : ∀ ks, t'.siblings ks = t.siblings ks) (built : KindSet K) (requested : List K) :
    t'.next built requested = t.next built requested := by
  unfold next
  rw [hsame, hregistry, nextBelow_congr hregistry hsame]

end TextIndex.CostTable
