import Mathlib.Data.List.Nodup
import TextIndex.Plan.Validation

/-!
# Mentions of kinds

A provider mentions the kinds that it requires and those that it yields. The first part of validation
looks for a mention of a kind that is not registered. It finds none exactly when all kinds mentioned are
registered (`firstDangling_eq_none_iff`), and what it reports is a mention by the earliest kind that has
such a one (`firstDangling_eq_some`).
-/

set_option autoImplicit false

namespace TextIndex

variable {K V : Type} [DecidableEq K]

/-- The value of a kind is the one it was entered with. -/
theorem KindMap.get?_eq_some_iff {m : KindMap K V} {k : K} {v : V} :
    m.get? k = some v ↔ (k, v) ∈ m.entries := by
  have hfound : ∀ {v}, m.get? k = some v → (k, v) ∈ m.entries := by
    intro v h
    obtain ⟨e, he, rfl⟩ := Option.map_eq_some_iff.1 h
    have hek : e.1 = k := by simpa using List.find?_some he
    rw [← hek]
    exact List.mem_of_find?_eq_some he
  refine ⟨hfound, fun h => ?_⟩
  obtain ⟨w, hw⟩ := KindMap.contains_iff.1 (List.mem_map_of_mem h : m.Contains k)
  -- a kind is entered once
  have hsame := List.inj_on_of_nodup_map m.keys_nodup (hfound hw) h rfl
  rw [hw, (Prod.mk.inj hsame).2]

namespace Registry

/-- The provider of the kind `k` names `q` as a requirement or as a byproduct. -/
def Mentions (r : Registry K) (k q : K) : Prop := q ∈ r.requirements k ∨ q ∈ r.byproducts k

/-- The kind mentions registered kinds only. -/
def Settled (r : Registry K) (k : K) : Prop := ∀ q, r.Mentions k q → r.Contains q

/-- The kind is the earliest of the registered ones that mentions an unregistered kind. -/
def FirstUnsettled (r : Registry K) (k : K) : Prop :=
  ¬ r.Settled k ∧ ∃ before after, r.kinds = before ++ k :: after ∧ ∀ j ∈ before, r.Settled j

variable {r : Registry K}

/-! ## Lists of the provider -/

/-- A registered kind requires what its provider does. -/
theorem requirements_of_mem {k : K} {p : Provider K} (h : (k, p) ∈ r.providers.entries) :
    r.requirements k = p.requirements.toList := by
  have hget : r.get? k = some p := KindMap.get?_eq_some_iff.2 h
  unfold requirements
  rw [hget]

/-- A registered kind yields what its provider does. -/
theorem byproducts_of_mem {k : K} {p : Provider K} (h : (k, p) ∈ r.providers.entries) :
    r.byproducts k = p.byproducts.toList := by
  have hget : r.get? k = some p := KindMap.get?_eq_some_iff.2 h
  unfold byproducts
  rw [hget]

/-- A kind without a provider requires nothing. -/
theorem requirements_of_not_contains {k : K} (h : ¬ r.Contains k) : r.requirements k = [] := by
  have hnone : r.get? k = none := KindMap.get?_eq_none_iff.2 h
  simp [requirements, hnone]

/-- A kind without a provider mentions nothing. -/
theorem settled_of_not_contains {k : K} (h : ¬ r.Contains k) : r.Settled k := by
  have hnone : r.get? k = none := KindMap.get?_eq_none_iff.2 h
  rintro q (hq | hq)
  · simp [requirements, hnone] at hq
  · simp [byproducts, hnone] at hq

/-! ## What is reported -/

/-- What is reported of a kind is a mention of an unregistered one. -/
theorem danglingOf_eq_some {k : K} {p : Provider K} {e : ConfigError K}
    (h : r.danglingOf k p = some e) :
    (∃ q ∈ p.requirements.toList, ¬ r.Contains q ∧ e = .unregisteredRequirement k q) ∨
      ∃ q ∈ p.byproducts.toList, ¬ r.Contains q ∧ e = .unregisteredByproduct k q := by
  unfold danglingOf at h
  split at h
  · next q hq =>
    cases h
    exact Or.inl ⟨q, List.mem_of_find?_eq_some hq, by simpa using List.find?_some hq, rfl⟩
  · obtain ⟨q, hq, rfl⟩ := Option.map_eq_some_iff.1 h
    exact Or.inr ⟨q, List.mem_of_find?_eq_some hq, by simpa using List.find?_some hq, rfl⟩

/-- Nothing is reported exactly of the kinds that mention registered kinds only. -/
theorem danglingOf_eq_none_iff {k : K} {p : Provider K} (h : (k, p) ∈ r.providers.entries) :
    r.danglingOf k p = none ↔ r.Settled k := by
  unfold Settled Mentions
  rw [requirements_of_mem h, byproducts_of_mem h]
  constructor
  · intro hnone q hq
    unfold danglingOf at hnone
    split at hnone
    · cases hnone
    · next hfind =>
      rw [Option.map_eq_none_iff] at hnone
      rw [List.find?_eq_none] at hfind hnone
      rcases hq with hq | hq
      · simpa using hfind q hq
      · simpa using hnone q hq
  · intro hsettled
    rw [Option.eq_none_iff_forall_ne_some]
    intro e he
    rcases danglingOf_eq_some he with ⟨q, hq, hnot, -⟩ | ⟨q, hq, hnot, -⟩
    · exact hnot (hsettled q (Or.inl hq))
    · exact hnot (hsettled q (Or.inr hq))

/-- No mention dangles exactly if everything mentioned is registered. -/
theorem firstDangling_eq_none_iff : r.firstDangling = none ↔ ∀ k, r.Settled k := by
  unfold firstDangling
  rw [List.findSome?_eq_none_iff]
  constructor
  · intro h k
    by_cases hk : r.Contains k
    · obtain ⟨⟨j, p⟩, he, rfl⟩ := List.mem_map.1 hk
      exact (danglingOf_eq_none_iff he).1 (h _ he)
    · exact settled_of_not_contains hk
  · intro h e he
    exact (danglingOf_eq_none_iff he).2 (h e.1)

/-- The first report is about the first kind that there is something to report of. -/
theorem firstDangling_eq_some {e : ConfigError K} (h : r.firstDangling = some e) :
    ∃ k q, r.FirstUnsettled k ∧ ¬ r.Contains q ∧
      (q ∈ r.requirements k ∧ e = .unregisteredRequirement k q ∨
        q ∈ r.byproducts k ∧ e = .unregisteredByproduct k q) := by
  obtain ⟨before, ⟨k, p⟩, after, hsplit, he, hbefore⟩ := List.findSome?_eq_some_iff.1 h
  have hentry : (k, p) ∈ r.providers.entries := by rw [hsplit]; simp
  have hfirst : r.FirstUnsettled k := by
    refine ⟨?_, before.map Prod.fst, after.map Prod.fst, ?_, ?_⟩
    · rw [← danglingOf_eq_none_iff hentry, he]
      simp
    · unfold kinds KindMap.keys
      rw [hsplit, List.map_append, List.map_cons]
    · intro j hj
      obtain ⟨e', he', rfl⟩ := List.mem_map.1 hj
      have hentry' : (e'.1, e'.2) ∈ r.providers.entries := by rw [hsplit]; simp [he']
      exact (danglingOf_eq_none_iff hentry').1 (hbefore e' he')
  rcases danglingOf_eq_some he with ⟨q, hq, hnot, rfl⟩ | ⟨q, hq, hnot, rfl⟩
  · rw [← requirements_of_mem hentry] at hq
    exact ⟨k, q, hfirst, hnot, Or.inl ⟨hq, rfl⟩⟩
  · rw [← byproducts_of_mem hentry] at hq
    exact ⟨k, q, hfirst, hnot, Or.inr ⟨hq, rfl⟩⟩

end Registry

end TextIndex
