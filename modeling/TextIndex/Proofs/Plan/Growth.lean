import Mathlib.Data.Finset.Powerset
import TextIndex.Proofs.Plan.Paths
import TextIndex.Proofs.Plan.Validation

/-!
# How costs grow

A kind costs one for each of its requirements, and what these cost. So a kind that requires all others costs
twice as much as the dearest of them, and one more, and no kind of a valid registry can cost more than that
(`costs_double_at_most`).

* Costs are numbers of requirement paths. Along a path the levels fall, so that a path is known when the set of
  its kinds is (`Layers.eq_of_toFinset_eq`). Hence there are fewer paths from a kind than there are sets of
  other kinds (`Layers.ncard_pathsFrom_lt`).
* In a ladder every kind requires all kinds below it. There each set of lower kinds is a path, and the costs
  are the powers of two less one (`addsUp_ladder`).

A cost table adds with 64-bit numbers. Up to 65 registered kinds these lose nothing, and with 65 the largest of
them is reached.
-/

set_option autoImplicit false

namespace TextIndex

namespace Registry

variable {K : Type} [DecidableEq K] {r : Registry K} {k q : K} {path path' : List K}

/-! ## Paths as sets of kinds -/

/-- From the first kind on, the levels fall along a path. -/
theorem Layers.pairwise_level (L : r.Layers) (h : path ∈ r.PathsFrom k) :
    (k :: path).Pairwise fun a b => L.level b < L.level a := by
  let _ : Trans (fun a b => L.level b < L.level a) (fun a b => L.level b < L.level a)
      (fun a b => L.level b < L.level a) := ⟨fun h h' => Nat.lt_trans h' h⟩
  exact (h.2.imp fun _ _ hneeds => L.level_lt hneeds).pairwise

/-- Whatever lies on a path is required by some kind. -/
theorem exists_needs_of_mem (h : path ∈ r.PathsFrom k) (hq : q ∈ path) : ∃ j, r.Needs j q := by
  induction path generalizing k with
  | nil => cases hq
  | cons p rest ih =>
    obtain ⟨hp, hrest⟩ := cons_mem_pathsFrom.1 h
    rcases List.mem_cons.1 hq with rfl | hq
    · exact ⟨k, hp⟩
    · rcases hrest with rfl | hrest
      · cases hq
      · exact ih hrest hq

/-- There is one order at most in which a path can visit a set of kinds. -/
theorem Layers.eq_of_toFinset_eq (L : r.Layers) (h : path ∈ r.PathsFrom k) (h' : path' ∈ r.PathsFrom k)
    (hset : path.toFinset = path'.toFinset) : path = path' := by
  have hfall := (List.pairwise_cons.1 (L.pairwise_level h)).2
  have hfall' := (List.pairwise_cons.1 (L.pairwise_level h')).2
  have hne : ∀ {a b : K}, L.level b < L.level a → a ≠ b := by
    rintro a b hlt rfl
    exact Nat.lt_irrefl _ hlt
  have hperm := List.perm_of_nodup_nodup_toFinset_eq (hfall.imp hne) (hfall'.imp hne) hset
  exact hperm.eq_of_pairwise (fun a b _ _ hab hba => absurd hab (Nat.lt_asymm hba)) hfall hfall'

/-- The kinds on a path are registered, and the first one is not met again. -/
theorem Layers.toFinset_subset (L : r.Layers) (hclosed : r.Closed) (h : path ∈ r.PathsFrom k) :
    path.toFinset ⊆ r.kinds.toFinset.erase k := by
  intro q hq
  rw [List.mem_toFinset] at hq
  obtain ⟨j, hj⟩ := exists_needs_of_mem h hq
  have hlt := (List.pairwise_cons.1 (L.pairwise_level h)).1 q hq
  refine Finset.mem_erase.2 ⟨?_, List.mem_toFinset.2 (hclosed j q hj)⟩
  rintro rfl
  exact Nat.lt_irrefl _ hlt

omit [DecidableEq K] in
/-- Every provider is registered for one kind. -/
theorem length_kinds (r : Registry K) : r.kinds.length = r.size := List.length_map _

/-- From a kind there are fewer paths than sets of other kinds: the empty set is none. -/
theorem Layers.ncard_pathsFrom_lt (L : r.Layers) (hclosed : r.Closed) (hk : r.Contains k) :
    (r.PathsFrom k).ncard < 2 ^ (r.size - 1) := by
  have hothers : (r.kinds.toFinset.erase k).card = r.size - 1 := by
    have hkinds : r.kinds.toFinset.card = r.kinds.length :=
      List.toFinset_card_of_nodup r.providers.nodup_keys
    rw [length_kinds] at hkinds
    have hmem : k ∈ r.kinds.toFinset := List.mem_toFinset.2 hk
    rw [Finset.card_erase_of_mem hmem, hkinds]
  have hle : (r.PathsFrom k).ncard ≤
      Set.ncard (SetLike.coe ((r.kinds.toFinset.erase k).powerset.erase ∅)) := by
    refine Set.ncard_le_ncard_of_injOn List.toFinset (fun path h => ?_) (fun path h path' h' => ?_)
      (Finset.finite_toSet _)
    · refine Finset.mem_erase.2 ⟨?_, Finset.mem_powerset.2 (L.toFinset_subset hclosed h)⟩
      exact fun hempty => h.1 ((List.toFinset_eq_empty_iff path).1 hempty)
    · exact L.eq_of_toFinset_eq h h'
  rw [Set.ncard_coe_finset, Finset.card_erase_of_mem (Finset.empty_mem_powerset _), Finset.card_powerset,
    hothers] at hle
  have hpos := Nat.two_pow_pos (r.size - 1)
  omega

/-! ## Costs as natural numbers -/

/-- Every kind costs one for each of its requirements, and what these cost. -/
def AddsUp (r : Registry K) (price : K → Nat) : Prop :=
  ∀ k, price k = r.inDegree k + ((r.requirements k).map price).sum

/-- The numbers of requirement paths add up. -/
theorem Layers.addsUp_paths (L : r.Layers) : r.AddsUp fun k => (r.PathsFrom k).ncard := by
  intro k
  dsimp only
  rw [L.ncard_pathsFrom, List.sum_map_add]
  simp [inDegree]

/-- In a layered registry the costs are determined. -/
theorem AddsUp.unique {price price' : K → Nat} (h : r.AddsUp price) (h' : r.AddsUp price')
    (L : r.Layers) : price = price' := by
  suffices hlevel : ∀ level k, L.level k = level → price k = price' k from funext fun k => hlevel _ k rfl
  intro level
  induction level using Nat.strong_induction_on with
  | _ level ih =>
    rintro k rfl
    rw [h k, h' k, List.map_congr_left fun q hq => ih _ (L.level_lt hq) q rfl]

/-! ## Ladders -/

/-- The kinds from `0` to `n - 1`, each of which requires all kinds below it. -/
def ladder : Nat → Registry Nat
  | 0 => .empty
  | n + 1 => ⟨(ladder n).providers.put n (Provider.leaf.requires (List.range n))⟩

/-- The kinds of a ladder are its rungs. -/
theorem kinds_ladder (n : Nat) : (ladder n).kinds = List.range n := by
  induction n with
  | zero => rfl
  | succ n ih =>
    have hnew : ¬ (ladder n).providers.Contains n := by
      have hkinds : (ladder n).providers.keys = List.range n := ih
      unfold KindMap.Contains
      rw [hkinds]
      exact List.not_mem_range_self
    show ((ladder n).providers.put n _).keys = _
    rw [KindMap.keys_put, if_neg hnew, List.range_succ]
    exact congrArg (· ++ [n]) ih

/-- A ladder has the rungs below its height. -/
theorem contains_ladder {n i : Nat} : (ladder n).Contains i ↔ i < n := by
  show i ∈ (ladder n).kinds ↔ i < n
  rw [kinds_ladder, List.mem_range]

/-- A ladder has as many kinds as it is high. -/
theorem size_ladder (n : Nat) : (ladder n).size = n := by
  rw [← length_kinds, kinds_ladder, List.length_range]

/-- A rung requires all rungs below it. -/
theorem get?_ladder {n i : Nat} (h : i < n) :
    (ladder n).get? i = some (Provider.leaf.requires (List.range i)) := by
  induction n with
  | zero => cases h
  | succ n ih =>
    show ((ladder n).providers.put n _).get? i = _
    rw [KindMap.get?_put]
    split
    · next heq => rw [heq]
    · exact ih (by omega)

/-- New kinds are listed behind the old ones. -/
theorem toList_insertAll_of_nodup {s : KindSet K} {ks : List K} (h : (s.toList ++ ks).Nodup) :
    (s.insertAll ks).toList = s.toList ++ ks := by
  induction ks generalizing s with
  | nil => exact (List.append_nil _).symm
  | cons k rest ih =>
    have hk : k ∉ s := fun hk => (List.nodup_append.1 h).2.2 k hk k List.mem_cons_self rfl
    have hinsert := KindSet.toList_insert_of_not_mem hk
    have hsplit : s.toList ++ k :: rest = (s.insert k).toList ++ rest := by
      rw [hinsert, List.append_assoc]
      rfl
    rw [hsplit] at h ⊢
    exact ih h

/-- A rung requires all rungs below it. -/
theorem requirements_ladder {n i : Nat} (h : i < n) : (ladder n).requirements i = List.range i := by
  unfold requirements
  rw [get?_ladder h]
  exact toList_insertAll_of_nodup (s := .empty) List.nodup_range

/-- Beyond the top nothing is required. -/
theorem requirements_ladder_of_le {n i : Nat} (h : n ≤ i) : (ladder n).requirements i = [] := by
  have hnone : (ladder n).get? i = none :=
    KindMap.get?_eq_none_iff.2 fun hi => absurd (contains_ladder.1 hi) (Nat.not_lt.2 h)
  unfold requirements
  rw [hnone]

/-- A kind of a ladder requires lower kinds of the ladder. -/
theorem lt_of_needs_ladder {n i j : Nat} (h : (ladder n).Needs i j) : j < i ∧ i < n := by
  have h : j ∈ (ladder n).requirements i := h
  by_cases hi : i < n
  · rw [requirements_ladder hi] at h
    exact ⟨List.mem_range.1 h, hi⟩
  · rw [requirements_ladder_of_le (Nat.not_lt.1 hi)] at h
    cases h

/-- A ladder yields nothing on the side. -/
theorem byproducts_ladder (n i : Nat) : (ladder n).byproducts i = [] := by
  unfold byproducts
  by_cases hi : i < n
  · rw [get?_ladder hi]
    rfl
  · have hnone : (ladder n).get? i = none :=
      KindMap.get?_eq_none_iff.2 fun hmem => hi (contains_ladder.1 hmem)
    rw [hnone]

/-- A ladder is valid. -/
theorem validate_ladder (n : Nat) : (ladder n).validate = .ok () := by
  refine validate_eq_ok_iff.2 ⟨fun i j hj => ?_, fun i hi => ?_⟩
  · rcases hj with hj | hj
    · obtain ⟨hlt, hn⟩ := lt_of_needs_ladder hj
      exact contains_ladder.2 (Nat.lt_trans hlt hn)
    · rw [byproducts_ladder] at hj
      cases hj
  · -- the kinds fall along requirements, and so none is below itself
    have hfall : ∀ {i j}, Relation.TransGen (ladder n).Needs i j → j < i := by
      intro i j h
      induction h with
      | single h => exact (lt_of_needs_ladder h).1
      | tail _ h ih => exact Nat.lt_trans (lt_of_needs_ladder h).1 ih
    exact Nat.lt_irrefl i (hfall hi)

/-- The powers of two below the `i`-th one add up to it, less one. -/
theorem sum_powers (i : Nat) : i + ((List.range i).map fun j => 2 ^ j - 1).sum = 2 ^ i - 1 := by
  induction i with
  | zero => rfl
  | succ i ih =>
    have hpos := Nat.two_pow_pos i
    rw [List.sum_range_succ, Nat.pow_succ]
    omega

/-- Costs double from rung to rung. -/
theorem addsUp_ladder (n : Nat) : (ladder n).AddsUp fun i => if i < n then 2 ^ i - 1 else 0 := by
  intro i
  unfold inDegree
  dsimp only
  by_cases hi : i < n
  · have hrungs : (List.range i).map (fun j => if j < n then 2 ^ j - 1 else 0) =
        (List.range i).map fun j => 2 ^ j - 1 :=
      List.map_congr_left fun j hj => if_pos (Nat.lt_trans (List.mem_range.1 hj) hi)
    rw [if_pos hi, requirements_ladder hi, hrungs, List.length_range, sum_powers]
  · rw [if_neg hi, requirements_ladder_of_le (Nat.not_lt.1 hi)]
    rfl

end Registry

namespace CostTable

open Registry (ladder)

variable {K : Type} [DecidableEq K]

/-- Costs in a valid registry, as natural numbers and as a cost table has them. -/
structure DoublesAtMost (r : Registry K) (price : K → Nat) : Prop where
  addsUp : r.AddsUp price
  only : ∀ price', r.AddsUp price' → price' = price
  le : ∀ k, r.Contains k → price k ≤ 2 ^ (r.size - 1) - 1
  /-- Whatever a table has been asked before, its answer is the cost as a 64-bit number. -/
  cost_eq : ∀ earlier k, (cost k ((new r).afterAll earlier)).1 = (price k).toUInt64
  cost_le : ∀ earlier k, r.Contains k →
    (cost k ((new r).afterAll earlier)).1.toNat ≤ 2 ^ (r.size - 1) - 1
  /-- Up to 65 kinds the answer is the cost itself, … -/
  exact : r.size ≤ 65 → ∀ earlier k, (cost k ((new r).afterAll earlier)).1.toNat = price k
  /-- … since the running sum over the requirements of a kind is a 64-bit number at each of them, … -/
  running : r.size ≤ 65 → ∀ earlier k qs, qs <+: r.requirements k →
    (qs.map fun q => (cost q ((new r).afterAll earlier)).1.toNat).sum < UInt64.size
  /-- … and so is the whole with the number of requirements added. -/
  whole : r.size ≤ 65 → ∀ earlier k, r.inDegree k +
    ((r.requirements k).map fun q => (cost q ((new r).afterAll earlier)).1.toNat).sum < UInt64.size

/-- Whatever it was asked before, a table answers with the number of paths, as a 64-bit number. -/
theorem cost_eq_ncard {r : Registry K} (L : r.Layers) (earlier : List (Query K)) (k : K) :
    (cost k ((new r).afterAll earlier)).1 = (r.PathsFrom k).ncard.toUInt64 := by
  have hcharges : Charges r (fun k => (r.PathsFrom k).ncard.toUInt64) ((new r).afterAll earlier) :=
    Charges.afterAll L ⟨rfl, priced_paths L⟩ earlier
  exact (hcharges.cost L k).1

section Valid

variable {r : Registry K} (hvalid : r.validate = .ok ())

include hvalid

/-- There are no more requirement paths than non-empty sets of other kinds. -/
theorem ncard_le {k : K} (hk : r.Contains k) : (r.PathsFrom k).ncard ≤ 2 ^ (r.size - 1) - 1 := by
  obtain ⟨L⟩ := Registry.nonempty_layers hvalid
  have hclosed : r.Closed := fun k q hq => (Registry.validate_eq_ok_iff.1 hvalid).1 k q (Or.inl hq)
  exact Nat.le_sub_one_of_lt (L.ncard_pathsFrom_lt hclosed hk)

/-- Up to 65 kinds their number is one of 64 bits. -/
theorem ncard_lt_size (hsize : r.size ≤ 65) (k : K) : (r.PathsFrom k).ncard < UInt64.size := by
  by_cases hk : r.Contains k
  · have hpow : 2 ^ (r.size - 1) ≤ 2 ^ 64 := Nat.pow_le_pow_right (by decide) (by omega)
    have hpos := Nat.two_pow_pos (r.size - 1)
    have hle := ncard_le hvalid hk
    have hsize64 : UInt64.size = 2 ^ 64 := rfl
    omega
  · -- a kind without a provider requires nothing
    obtain ⟨L⟩ := Registry.nonempty_layers hvalid
    have hnone : r.get? k = none := KindMap.get?_eq_none_iff.2 hk
    have hzero : (r.PathsFrom k).ncard = 0 := by
      rw [L.ncard_pathsFrom]
      simp [Registry.requirements, hnone]
    rw [hzero]
    decide

/-- Up to 65 kinds a cost table answers with the exact number of paths. -/
theorem toNat_cost (hsize : r.size ≤ 65) (earlier : List (Query K)) (k : K) :
    (cost k ((new r).afterAll earlier)).1.toNat = (r.PathsFrom k).ncard := by
  obtain ⟨L⟩ := Registry.nonempty_layers hvalid
  rw [cost_eq_ncard L]
  exact UInt64.toNat_ofNat_of_lt' (ncard_lt_size hvalid hsize k)

/-- The sum that a table computes for a kind, with its answers for the requirements. -/
theorem whole_lt_size (hsize : r.size ≤ 65) (earlier : List (Query K)) (k : K) : r.inDegree k +
    ((r.requirements k).map fun q => (cost q ((new r).afterAll earlier)).1.toNat).sum < UInt64.size := by
  obtain ⟨L⟩ := Registry.nonempty_layers hvalid
  simp only [toNat_cost hvalid hsize earlier]
  rw [← L.addsUp_paths k]
  exact ncard_lt_size hvalid hsize k

/-- Costs are the numbers of requirement paths, and double at most with each kind. -/
theorem doublesAtMost_paths : DoublesAtMost r fun k => (r.PathsFrom k).ncard := by
  obtain ⟨L⟩ := Registry.nonempty_layers hvalid
  refine
    { addsUp := L.addsUp_paths
      only := fun price' h' => h'.unique L.addsUp_paths L
      le := fun k hk => ncard_le hvalid hk
      cost_eq := cost_eq_ncard L
      cost_le := ?_
      exact := toNat_cost hvalid
      running := ?_
      whole := whole_lt_size hvalid }
  · intro earlier k hk
    rw [cost_eq_ncard L]
    exact Nat.le_trans (Nat.mod_le _ _) (ncard_le hvalid hk)
  · -- a sum over the first requirements is a part of the whole one
    rintro hsize earlier k qs ⟨rest, hsplit⟩
    have hwhole := whole_lt_size hvalid hsize earlier k
    rw [← hsplit, List.map_append, List.sum_append] at hwhole
    omega

end Valid

/-- In a valid registry of `n` kinds no kind costs more than `2 ^ (n - 1) - 1`, so that up to 65 kinds no
addition of a cost table goes beyond a 64-bit number; and for every `n` there is a registry with a kind that
costs as much. A table answers with that cost up to 65 kinds, and beyond with what 64 bits hold of it. -/
theorem costs_double_at_most :
    (∀ {K : Type} [DecidableEq K] (r : Registry K), r.validate = .ok () → ∃ price, DoublesAtMost r price) ∧
      ∀ n, 1 ≤ n → ∃ r : Registry Nat, r.validate = .ok () ∧ r.size = n ∧
        ∃ price k, DoublesAtMost r price ∧ r.Contains k ∧ price k = 2 ^ (n - 1) - 1 ∧
          (n ≤ 65 → (cost k (new r)).1.toNat = 2 ^ (n - 1) - 1) := by
  refine ⟨fun r hvalid => ⟨_, doublesAtMost_paths hvalid⟩, fun n hn => ?_⟩
  have hvalid := Registry.validate_ladder n
  have hdoubles := doublesAtMost_paths hvalid
  have htop : n - 1 < n := Nat.sub_lt hn Nat.one_pos
  have hsize := Registry.size_ladder n
  have hprice : ((ladder n).PathsFrom (n - 1)).ncard = 2 ^ (n - 1) - 1 :=
    (congrFun (hdoubles.only _ (Registry.addsUp_ladder n)) (n - 1)).symm.trans (if_pos htop)
  refine ⟨ladder n, hvalid, hsize, _, n - 1, hdoubles, Registry.contains_ladder.2 htop, hprice, fun h => ?_⟩
  exact (hdoubles.exact (hsize.trans_le h) [] (n - 1)).trans hprice

/-- Two ways lead from the top of a diamond of four kinds to its foot; and some registry of 65 kinds has a
kind for which a cost table answers with the largest 64-bit number. -/
theorem costs_double_at_most_in_diamond :
    (Registry.diamond.validate = .ok () ∧ ∃ price, DoublesAtMost Registry.diamond price) ∧
      ∃ r : Registry Nat, r.validate = .ok () ∧ r.size = 65 ∧
        ∃ k, (cost k (new r)).1.toNat = 2 ^ 64 - 1 := by
  obtain ⟨hbounded, hreached⟩ := costs_double_at_most
  have hvalid : Registry.diamond.validate = .ok () := rfl
  obtain ⟨r, hr, hsize, -, k, -, -, -, hk⟩ := hreached 65 (by decide)
  exact ⟨⟨hvalid, hbounded Registry.diamond hvalid⟩, r, hr, hsize, k, hk (by decide)⟩

end CostTable

end TextIndex
