import Mathlib.Data.Set.Card
import TextIndex.Proofs.Plan.Choice

/-!
# Costs count requirement paths

From a kind one can go on along requirements in different ways, and each way of going on by at least
one step counts once for the cost of the kind (`cost_counts_paths`). A kind that several paths lead to
is counted with each of them.

* The paths from a kind are those of its requirements with one step before them, and the steps
  themselves (`ncard_pathsFrom`). This is the sum that a cost table computes, so that the numbers of
  paths, as 64-bit numbers, are prices for a new table (`priced_paths`).
* Whatever a table is asked, its prices stay, and so a cost never depends on the questions before it.
* The recursion has a bound on its depth. `Computes` is the same recursion without one, and a layered
  registry lets it come to its end, with the same answers (`computes_costWithin`).
-/

set_option autoImplicit false

namespace TextIndex

variable {K : Type} [DecidableEq K]

namespace Registry

/-! ## Paths -/

/-- The ways to go on from a kind along requirements by one step or more. A path is the list of the
kinds that come after the first one. -/
def PathsFrom (r : Registry K) (k : K) : Set (List K) :=
  {path | path ≠ [] ∧ (k :: path).IsChain r.Needs}

/-- The paths of at most `depth` steps. -/
def pathsWithin (r : Registry K) : Nat → K → List (List K)
  | 0, _ => []
  | depth + 1, k =>
    (r.requirements k).flatMap fun q => [q] :: (pathsWithin r depth q).map (q :: ·)

variable {r : Registry K}

/-- A path begins with a requirement, and ends there or goes on from it. -/
theorem cons_mem_pathsFrom {k q : K} {path : List K} :
    q :: path ∈ r.PathsFrom k ↔ q ∈ r.requirements k ∧ (path = [] ∨ path ∈ r.PathsFrom q) := by
  have hchain : (k :: q :: path).IsChain r.Needs ↔
      q ∈ r.requirements k ∧ (q :: path).IsChain r.Needs := List.isChain_cons_cons
  have hmem : ∀ k path, path ∈ r.PathsFrom k ↔ path ≠ [] ∧ (k :: path).IsChain r.Needs :=
    fun _ _ => Iff.rfl
  rw [hmem, hmem, hchain]
  cases path with
  | nil => simp
  | cons p path => simp

/-- The paths of a bounded search are the requirement paths that are no longer than the bound. -/
theorem mem_pathsWithin {depth : Nat} : ∀ {k : K} {path : List K},
    path ∈ r.pathsWithin depth k ↔ path ∈ r.PathsFrom k ∧ path.length ≤ depth := by
  induction depth with
  | zero =>
    intro k path
    refine iff_of_false List.not_mem_nil ?_
    rintro ⟨⟨hne, -⟩, hlen⟩
    exact hne (List.eq_nil_of_length_eq_zero (Nat.le_zero.1 hlen))
  | succ depth ih =>
    intro k path
    unfold pathsWithin
    simp only [List.mem_flatMap, List.mem_cons, List.mem_map]
    constructor
    · rintro ⟨q, hq, rfl | ⟨rest, hrest, rfl⟩⟩
      · exact ⟨cons_mem_pathsFrom.2 ⟨hq, Or.inl rfl⟩, by simp⟩
      · obtain ⟨hrest, hlen⟩ := ih.1 hrest
        exact ⟨cons_mem_pathsFrom.2 ⟨hq, Or.inr hrest⟩, Nat.succ_le_succ hlen⟩
    · rintro ⟨hpath, hlen⟩
      cases path with
      | nil => exact absurd rfl hpath.1
      | cons q rest =>
        obtain ⟨hq, rfl | hrest⟩ := cons_mem_pathsFrom.1 hpath
        · exact ⟨q, hq, Or.inl rfl⟩
        · exact ⟨q, hq, Or.inr ⟨rest, ih.2 ⟨hrest, Nat.le_of_succ_le_succ hlen⟩, rfl⟩⟩

/-- No path is listed twice. -/
theorem nodup_pathsWithin (r : Registry K) (depth : Nat) : ∀ k, (r.pathsWithin depth k).Nodup := by
  induction depth with
  | zero => exact fun _ => List.nodup_nil
  | succ depth ih =>
    intro k
    unfold pathsWithin
    refine List.nodup_flatMap.2 ⟨?_, ?_⟩
    · intro q _
      refine List.nodup_cons.2 ⟨?_, (ih q).map fun _ _ h => (List.cons.inj h).2⟩
      rintro hmem
      obtain ⟨rest, hrest, heq⟩ := List.mem_map.1 hmem
      obtain rfl := (List.cons.inj heq).2
      exact (mem_pathsWithin.1 hrest).1.1 rfl
    · -- paths that begin differently are different
      refine (r.nodup_requirements k).imp fun hne => ?_
      intro path hp hq
      have hhead : ∀ {p : K}, path ∈ [p] :: (pathsWithin r depth p).map (p :: ·) →
          path.head? = some p := by
        intro p hmem
        rcases List.mem_cons.1 hmem with rfl | hmem
        · rfl
        · obtain ⟨rest, -, rfl⟩ := List.mem_map.1 hmem
          rfl
      exact hne (Option.some.inj ((hhead hp).symm.trans (hhead hq)))

/-- Levels fall with every step of a path. -/
theorem Layers.length_le_level (L : r.Layers) {k : K} {path : List K} (h : path ∈ r.PathsFrom k) :
    path.length ≤ L.level k := by
  induction path generalizing k with
  | nil => exact Nat.zero_le _
  | cons q rest ih =>
    obtain ⟨hq, hrest⟩ := cons_mem_pathsFrom.1 h
    have hlt := L.level_lt hq
    rw [List.length_cons]
    rcases hrest with rfl | hrest
    · rw [List.length_nil]
      omega
    · have := ih hrest
      omega

/-- In a layered registry the level of a kind bounds the paths from there. -/
theorem Layers.pathsFrom_eq (L : r.Layers) {k : K} {depth : Nat} (h : L.level k ≤ depth) :
    r.PathsFrom k = {path | path ∈ r.pathsWithin depth k} := by
  ext path
  refine ⟨fun hpath => mem_pathsWithin.2 ⟨hpath, ?_⟩, fun hpath => (mem_pathsWithin.1 hpath).1⟩
  exact Nat.le_trans (L.length_le_level hpath) h

/-- From a kind of a layered registry there are finitely many requirement paths. -/
theorem Layers.finite_pathsFrom (L : r.Layers) (k : K) : (r.PathsFrom k).Finite := by
  rw [L.pathsFrom_eq (Nat.le_refl _)]
  exact List.finite_toSet _

/-- There are as many paths as are listed. -/
theorem Layers.ncard_eq_length (L : r.Layers) {k : K} {depth : Nat} (h : L.level k ≤ depth) :
    (r.PathsFrom k).ncard = (r.pathsWithin depth k).length := by
  have hset : r.PathsFrom k = ↑(r.pathsWithin depth k).toFinset := by
    rw [L.pathsFrom_eq h]
    ext path
    simp
  rw [hset, Set.ncard_coe_finset, List.toFinset_card_of_nodup (nodup_pathsWithin r depth k)]

/-- Each requirement is a path, and the first step of those that go on from it. -/
theorem Layers.ncard_pathsFrom (L : r.Layers) (k : K) :
    (r.PathsFrom k).ncard =
      ((r.requirements k).map fun q => 1 + (r.PathsFrom q).ncard).sum := by
  rw [L.ncard_eq_length (Nat.le_succ (L.level k)), pathsWithin, List.length_flatMap]
  refine congrArg List.sum (List.map_congr_left fun q hq => ?_)
  rw [L.ncard_eq_length (Nat.le_of_lt (L.level_lt hq)), List.length_cons, List.length_map,
    Nat.add_comm]

end Registry

namespace CostTable

/-! ## The recursion without a bound -/

mutual

/-- The cost of a kind: what is known of it, or else the number of its requirements and their costs,
which is then remembered. The known costs are given before and after. -/
inductive Computes (r : Registry K) : K → KindMap K UInt64 → UInt64 → KindMap K UInt64 → Prop where
  | known {k : K} {c : UInt64} {known : KindMap K UInt64} (hc : known.get? k = some c) :
    Computes r k known c known
  | unknown {k : K} {below : UInt64} {known known' : KindMap K UInt64}
    (hnone : known.get? k = none)
    (hbelow : ComputesSum r (r.requirements k) 0 known below known') :
    Computes r k known ((r.inDegree k).toUInt64 + below)
      (known'.put k ((r.inDegree k).toUInt64 + below))

/-- The costs of kinds, asked for one after the other, are added to a sum. -/
inductive ComputesSum (r : Registry K) :
    List K → UInt64 → KindMap K UInt64 → UInt64 → KindMap K UInt64 → Prop where
  | nil {sum : UInt64} {known : KindMap K UInt64} : ComputesSum r [] sum known sum known
  | cons {q : K} {qs : List K} {sum c total : UInt64} {known known' known'' : KindMap K UInt64}
    (hcost : Computes r q known c known')
    (hrest : ComputesSum r qs (sum + c) known' total known'') :
    ComputesSum r (q :: qs) sum known total known''

end

variable {r : Registry K}

/-- Asking for the costs of several kinds in turn computes their sum. -/
theorem computesSum_foldl (ask : K → KindMap K UInt64 → UInt64 × KindMap K UInt64) (qs : List K)
    (hask : ∀ q ∈ qs, ∀ known, Computes r q known (ask q known).1 (ask q known).2)
    (sum : UInt64) (known : KindMap K UInt64) :
    ComputesSum r qs sum known
      (qs.foldl (fun sum q => (sum.1 + (ask q sum.2).1, (ask q sum.2).2)) (sum, known)).1
      (qs.foldl (fun sum q => (sum.1 + (ask q sum.2).1, (ask q sum.2).2)) (sum, known)).2 := by
  induction qs generalizing sum known with
  | nil => exact .nil
  | cons q qs ih =>
    rw [List.foldl_cons]
    exact .cons (hask q List.mem_cons_self known)
      (ih (fun p hp => hask p (List.mem_cons_of_mem _ hp)) _ _)

/-- A bound above the level of a kind is never reached. -/
theorem computes_costWithin (L : r.Layers) (depth : Nat) :
    ∀ {k : K}, L.level k < depth → ∀ known,
      Computes r k known (costWithin r depth k known).1 (costWithin r depth k known).2 := by
  induction depth with
  | zero =>
    intro k h
    exact absurd h (Nat.not_lt_zero _)
  | succ depth ih =>
    intro k hlevel known
    unfold costWithin
    cases hget : known.get? k with
    | some c => exact .known hget
    | none =>
      refine .unknown hget (computesSum_foldl (costWithin r depth) (r.requirements k) ?_ 0 known)
      intro q hq
      exact ih (by have := L.level_lt hq; omega)

/-! ## Prices are numbers of paths -/

omit [DecidableEq K] in
/-- Numbers that are added up as 64-bit numbers. -/
theorem foldl_add_toUInt64 (number : K → Nat) (qs : List K) (start : Nat) :
    qs.foldl (fun sum q => sum + (number q).toUInt64) start.toUInt64 =
      (start + (qs.map number).sum).toUInt64 := by
  induction qs generalizing start with
  | nil => rfl
  | cons q qs ih =>
    have hadd : start.toUInt64 + (number q).toUInt64 = (start + number q).toUInt64 :=
      (UInt64.ofNat_add _ _).symm
    rw [List.foldl_cons, hadd, ih, List.map_cons, List.sum_cons, Nat.add_assoc]

/-- For a table that knows nothing, the numbers of paths are prices. -/
theorem priced_paths (L : r.Layers) :
    Priced r .empty fun k => (r.PathsFrom k).ncard.toUInt64 := by
  intro k
  show (r.PathsFrom k).ncard.toUInt64 = _
  rw [KindMap.get?_empty, Option.getD_none, expense, L.ncard_pathsFrom k]
  have hsum := foldl_add_toUInt64 (fun q => (r.PathsFrom q).ncard) (r.requirements k) 0
  have hsteps : ((r.requirements k).map fun q => 1 + (r.PathsFrom q).ncard).sum =
      r.inDegree k + (0 + ((r.requirements k).map fun q => (r.PathsFrom q).ncard).sum) := by
    rw [List.sum_map_add, Nat.zero_add]
    simp [Registry.inDegree]
  rw [hsteps]
  exact (UInt64.ofNat_add _ _).trans (congrArg _ hsum.symm)

/-! ## Questions in any order -/

/-- What a cost table can be asked. -/
inductive Query (K : Type) where
  | cost (k : K)
  | constructionOrder (siblings : List K)
  | dependencyOrder (k : K)

/-- The table after it has been asked. -/
def after (t : CostTable K) : Query K → CostTable K
  | .cost k => (cost k t).2
  | .constructionOrder siblings => (constructionOrder siblings t).2
  | .dependencyOrder k => (dependencyOrder k t).2

/-- The table after several questions. -/
def afterAll (t : CostTable K) (queries : List (Query K)) : CostTable K := queries.foldl after t

/-- A table over a registry whose prices are the given ones. -/
structure Charges (r : Registry K) (price : K → UInt64) (t : CostTable K) : Prop where
  registry_eq : t.registry = r
  priced : Priced r t.known price

/-- A table answers with the price of a kind, and goes on answering so. -/
theorem Charges.cost (L : r.Layers) {price : K → UInt64} {t : CostTable K} (h : Charges r price t)
    (k : K) : (CostTable.cost k t).1 = price k ∧ Charges r price (CostTable.cost k t).2 := by
  obtain ⟨rfl, hpriced⟩ := h
  obtain ⟨hcost, hknown⟩ := costWithin_priced L t.registry.depth (L.level_lt_depth k) hpriced
  exact ⟨hcost, rfl, hknown⟩

/-- To ask for an order is to ask for costs. -/
theorem Charges.constructionOrder (L : r.Layers) {price : K → UInt64} {t : CostTable K}
    (h : Charges r price t) (siblings : List K) :
    Charges r price (CostTable.constructionOrder siblings t).2 := by
  obtain ⟨rfl, hpriced⟩ := h
  exact ⟨registry_constructionOrder siblings t, (costs_priced L hpriced siblings).2⟩

/-- Whatever a table is asked, it goes on answering with the same prices. -/
theorem Charges.afterAll (L : r.Layers) {price : K → UInt64} {t : CostTable K} (h : Charges r price t)
    (queries : List (Query K)) : Charges r price (t.afterAll queries) := by
  induction queries generalizing t with
  | nil => exact h
  | cons query queries ih =>
    apply ih
    cases query with
    | cost k => exact (h.cost L k).2
    | constructionOrder siblings => exact h.constructionOrder L siblings
    | dependencyOrder k => exact h.constructionOrder L _

/-- Whatever a table over a valid registry has been asked, the recursion for the cost of a kind ends,
and the cost is the number of requirement paths from that kind, as long as this is a 64-bit number. -/
theorem cost_counts_paths {r : Registry K} (hvalid : r.validate = .ok ()) (earlier : List (Query K))
    (k : K) (hsmall : (r.PathsFrom k).ncard < UInt64.size) :
    let t := (new r).afterAll earlier
    Computes r k t.known (cost k t).1 (cost k t).2.known ∧
      (r.PathsFrom k).Finite ∧ (cost k t).1.toNat = (r.PathsFrom k).ncard := by
  intro t
  obtain ⟨L⟩ := Registry.nonempty_layers hvalid
  have hsells : Charges r (fun k => (r.PathsFrom k).ncard.toUInt64) t :=
    Charges.afterAll L ⟨rfl, priced_paths L⟩ earlier
  refine ⟨?_, L.finite_pathsFrom k, ?_⟩
  · have hcomputes := computes_costWithin L r.depth (L.level_lt_depth k) t.known
    show Computes r k t.known (costWithin t.registry t.registry.depth k t.known).1
      (costWithin t.registry t.registry.depth k t.known).2
    rwa [hsells.registry_eq]
  · rw [(hsells.cost L k).1]
    exact UInt64.toNat_ofNat_of_lt' hsmall

/-- Two ways lead from the top of a diamond to its foot, so that there are four paths from the top. The
table has been asked before, for an order and for costs. -/
theorem cost_counts_paths_through_diamond :
    let t := (new Registry.diamond).afterAll [.constructionOrder [1, 0, 7], .dependencyOrder 3, .cost 2]
    Registry.diamond.validate = .ok () ∧ (Registry.diamond.PathsFrom 3).ncard = 4 ∧
      Computes Registry.diamond 3 t.known (cost 3 t).1 (cost 3 t).2.known ∧
      (Registry.diamond.PathsFrom 3).Finite ∧
      (cost 3 t).1.toNat = (Registry.diamond.PathsFrom 3).ncard := by
  intro t
  have hvalid : Registry.diamond.validate = .ok () := rfl
  obtain ⟨L⟩ := Registry.nonempty_layers hvalid
  have hfour : (Registry.diamond.PathsFrom 3).ncard = 4 :=
    L.ncard_eq_length (Nat.le_of_lt (L.level_lt_depth 3))
  exact ⟨hvalid, hfour, cost_counts_paths hvalid _ 3 (by rw [hfour]; decide)⟩

end CostTable

end TextIndex
