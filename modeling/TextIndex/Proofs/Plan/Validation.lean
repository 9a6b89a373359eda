import Mathlib.Data.List.Chain
import TextIndex.Proofs.Plan.Layers

/-!
# Validation is sound and complete

A registry is valid exactly when every kind that it mentions is registered and no kind requires itself,
directly or through others, and a registry that is refused has the fault that is reported
(`validation_sound_and_complete`).

* A walk that succeeds leaves levels behind, which fall along every requirement: there is no cycle.
* A walk that fails has met a kind on its own path, and the part of the path from there on is a cycle
  (`isCycle_of_walk`). So a walk fails on no registry without cycles.
* The walk is a recursion of bounded depth. `Searches` is the same search as a loop with a stack, and
  without any bound. It comes to an end, with the answer of the walk (`searches_walkAll`): the kinds on
  the stack are registered and distinct, so that the bound of the recursion is never reached.
-/

set_option autoImplicit false

namespace TextIndex

variable {K : Type} [DecidableEq K]

namespace Registry

variable {r : Registry K}

/-! ## Cycles -/

/-- A chain of requirements that ends where it starts, and meets no other kind twice. -/
structure IsCycle (r : Registry K) (path : List K) : Prop where
  two_le : 2 ≤ path.length
  closed : path.head? = path.getLast?
  nodup : path.dropLast.Nodup
  chain : path.IsChain r.Needs

/-- The kinds on a cycle require themselves. -/
theorem IsCycle.exists_transGen {path : List K} (h : r.IsCycle path) :
    ∃ k, Relation.TransGen r.Needs k k := by
  obtain ⟨hlen, hclosed, -, hchain⟩ := h
  match path, hlen with
  | k :: q :: rest, _ =>
    rw [List.isChain_cons_cons] at hchain
    rw [List.head?_cons, List.getLast?_cons_cons, List.getLast?_eq_some_getLast (by simp)] at hclosed
    have hback := List.relationReflTransGen_of_exists_isChain_cons rest hchain.2
      (Option.some.inj hclosed).symm
    exact ⟨k, Relation.TransGen.head' hchain.1 hback⟩

/-- No kind of a layered registry requires itself. -/
theorem Layers.not_transGen (L : r.Layers) (k : K) : ¬ Relation.TransGen r.Needs k k := by
  intro h
  obtain ⟨q, hq, hback⟩ := Relation.TransGen.head'_iff.1 h
  exact L.not_reachable_requirement hq hback

/-- A requirement that lies on the path closes it to a cycle. -/
theorem isCycle_of_mem {path : List K} {k q : K} (hnodup : (path ++ [k]).Nodup)
    (hchain : (path ++ [k]).IsChain r.Needs) (hq : q ∈ r.requirements k) (hmem : q ∈ path ++ [k]) :
    r.IsCycle ((path ++ [k]).dropWhile (· ≠ q) ++ [q]) := by
  obtain ⟨front, back, hsplit, hfront⟩ := List.eq_append_cons_of_mem hmem
  have hlast : (q :: back).getLast? = some k := by
    have hlast := congrArg List.getLast? hsplit
    rw [List.getLast?_concat, List.getLast?_append_of_ne_nil _ (List.cons_ne_nil q back)] at hlast
    exact hlast.symm
  have hdrop : (path ++ [k]).dropWhile (· ≠ q) = q :: back := by
    rw [hsplit, List.dropWhile_append_of_pos]
    · simp
    · intro x hx
      have hne : x ≠ q := by
        rintro rfl
        exact hfront hx
      simpa using hne
  rw [hsplit] at hnodup hchain
  rw [hdrop]
  refine ⟨by simp, ?_, ?_, ?_⟩
  · rw [List.getLast?_concat]
    rfl
  · rw [List.dropLast_concat]
    exact (List.nodup_append.1 hnodup).2.1
  · refine List.isChain_append.2 ⟨hchain.right_of_append, List.isChain_singleton q, ?_⟩
    intro x hx y hy
    rw [hlast] at hx
    cases hx
    cases hy
    exact hq

/-- A walk along a chain of requirements fails for a cycle. -/
theorem isCycle_of_walk (depth : Nat) : ∀ {path finished cycle : List K} {k : K},
    (path ++ [k]).Nodup → (path ++ [k]).IsChain r.Needs →
      r.walk depth path finished k = .error cycle → r.IsCycle cycle := by
  induction depth with
  | zero =>
    intro path finished cycle k _ _ h
    cases h
  | succ depth ih =>
    intro path finished cycle k hnodup hchain h
    rcases bind_eq_error.1 h with h | ⟨_, -, h⟩
    · obtain ⟨q, hq, acc, hround⟩ := foldlM_error h
      split at hround
      · cases hround
      · split at hround
        · next hmem =>
          cases hround
          exact isCycle_of_mem hnodup hchain hq hmem
        · next hmem =>
          refine ih (KindSet.nodup_snoc hnodup hmem) ?_ hround
          refine List.isChain_append.2 ⟨hchain, List.isChain_singleton q, ?_⟩
          intro x hx y hy
          rw [List.getLast?_concat] at hx
          cases hx
          cases hy
          exact hq
    · cases h

/-- A walk that fails has gone round a cycle. -/
theorem isCycle_of_walkAll {cycle : List K} (h : r.walkAll = .error cycle) : r.IsCycle cycle := by
  obtain ⟨k, -, finished, hround⟩ := foldlM_error h
  split at hround
  · cases hround
  · exact isCycle_of_walk r.depth (by simp) (by simp) hround

/-! ## The search as a loop -/

/-- Depth-first search with a stack of its own. There are the kinds that are done with, those under way
on the stack, innermost first and each with the requirements that are still to be looked at, and the
kinds from which the search has yet to set out. The search ends with the kinds that are done with, or
with a cycle. -/
inductive Searches (r : Registry K) :
    List K → List (K × List K) → List K → Except (List K) (List K) → Prop where
  | over {finished : List K} : Searches r finished [] [] (.ok finished)
  /-- The kind has been met on the way from an earlier one. -/
  | pass {finished roots : List K} {k : K} {answer : Except (List K) (List K)} (hk : k ∈ finished)
    (hrest : Searches r finished [] roots answer) : Searches r finished [] (k :: roots) answer
  | setOut {finished roots : List K} {k : K} {answer : Except (List K) (List K)} (hk : k ∉ finished)
    (hrest : Searches r finished [(k, r.requirements k)] roots answer) :
    Searches r finished [] (k :: roots) answer
  /-- All requirements of the innermost kind have been looked at. -/
  | finish {finished roots : List K} {below : List (K × List K)} {k : K}
    {answer : Except (List K) (List K)}
    (hrest : Searches r (finished ++ [k]) below roots answer) :
    Searches r finished ((k, []) :: below) roots answer
  | skip {finished roots qs : List K} {below : List (K × List K)} {k q : K}
    {answer : Except (List K) (List K)} (hq : q ∈ finished)
    (hrest : Searches r finished ((k, qs) :: below) roots answer) :
    Searches r finished ((k, q :: qs) :: below) roots answer
  | enter {finished roots qs : List K} {below : List (K × List K)} {k q : K}
    {answer : Except (List K) (List K)} (hq : q ∉ finished) (hout : q ∉ k :: below.map Prod.fst)
    (hrest : Searches r finished ((q, r.requirements q) :: (k, qs) :: below) roots answer) :
    Searches r finished ((k, q :: qs) :: below) roots answer
  /-- The requirement is under way: the stack from there to the top is a cycle. -/
  | close {finished roots qs : List K} {below : List (K × List K)} {k q : K} (hq : q ∉ finished)
    (hin : q ∈ k :: below.map Prod.fst) :
    Searches r finished ((k, q :: qs) :: below) roots
      (.error ((k :: below.map Prod.fst).reverse.dropWhile (· ≠ q) ++ [q]))

/-- What the answer of a search is after a part of it: a cycle is the answer, and otherwise the search
goes on. -/
def Decides (part answer : Except (List K) (List K)) (goesOn : List K → Prop) : Prop :=
  match part with
  | .ok finished => goesOn finished
  | .error cycle => answer = .error cycle

omit [DecidableEq K] in
/-- A search that goes on after a part decides what the part and the rest decide. -/
theorem decides_bind {part answer : Except (List K) (List K)} {f : List K → Except (List K) (List K)}
    {goesOn : List K → Prop} :
    Decides (part >>= f) answer goesOn ↔
      Decides part answer fun finished => Decides (f finished) answer goesOn := by
  cases part <;> exact Iff.rfl

variable {roots : List K} {answer : Except (List K) (List K)}

/-- The requirements of the innermost kind are visited one after the other. -/
theorem searches_foldlM {k : K} {below : List (K × List K)}
    {visit : List K → K → Except (List K) (List K)} (rest : List K)
    (hvisit : ∀ {q : K} {qs finished : List K}, q ∈ rest →
      Decides (visit finished q) answer
        (fun finished => Searches r finished ((k, qs) :: below) roots answer) →
      Searches r finished ((k, q :: qs) :: below) roots answer)
    {finished : List K}
    (h : Decides (rest.foldlM visit finished) answer
      fun finished => Searches r (finished ++ [k]) below roots answer) :
    Searches r finished ((k, rest) :: below) roots answer := by
  induction rest generalizing finished with
  | nil => exact .finish h
  | cons q rest ih =>
    rw [List.foldlM_cons, decides_bind] at h
    apply hvisit List.mem_cons_self
    cases hq : visit finished q with
    | error cycle =>
      rw [hq] at h
      exact h
    | ok finished' =>
      rw [hq] at h
      exact ih (fun hmem => hvisit (List.mem_cons_of_mem q hmem)) h

/-- The loop follows the recursion, as long as the bound of the recursion is not reached. That would take
more kinds on the stack than there are registered ones. -/
theorem searches_walk (hclosed : r.Closed) (depth : Nat) :
    ∀ {path finished : List K} {k : K} {below : List (K × List K)},
      below.map Prod.fst = path.reverse → (path ++ [k]).Nodup → (∀ x ∈ path ++ [k], r.Contains x) →
      path.length + depth = r.depth →
      Decides (r.walk depth path finished k) answer
        (fun finished => Searches r finished below roots answer) →
      Searches r finished ((k, r.requirements k) :: below) roots answer := by
  induction depth with
  | zero =>
    intro path finished k below _ hnodup hreg hlen _
    have hlt := length_lt_depth hnodup hreg
    simp only [List.length_append, List.length_singleton] at hlt
    omega
  | succ depth ih =>
    intro path finished k below hbelow hnodup hreg hlen h
    have hstack : k :: below.map Prod.fst = (path ++ [k]).reverse := by
      rw [hbelow, List.reverse_append, List.reverse_singleton, List.singleton_append]
    unfold walk at h
    rw [decides_bind] at h
    refine searches_foldlM (r.requirements k) ?_ h
    intro q qs finished hq hnext
    split at hnext
    · next hmem => exact .skip hmem hnext
    · next hmem =>
      split at hnext
      · next hpath =>
        rw [hnext, ← List.reverse_reverse (path ++ [k]), ← hstack]
        exact .close hmem (by rwa [hstack, List.mem_reverse])
      · next hpath =>
        refine .enter hmem (by rwa [hstack, List.mem_reverse]) ?_
        refine ih (by rw [List.map_cons, hstack]) (KindSet.nodup_snoc hnodup hpath) ?_ ?_ hnext
        · intro x hx
          rcases List.mem_append.1 hx with hx | hx
          · exact hreg x hx
          · rw [List.mem_singleton.1 hx]
            exact hclosed k q hq
        · simp only [List.length_append, List.length_singleton]
          omega

/-- The search from all kinds comes to an end, with the answer of the walks. -/
theorem searches_walkAll (hclosed : r.Closed) : r.Searches [] [] r.kinds r.walkAll := by
  suffices hrest : ∀ (rest finished : List K), rest ⊆ r.kinds →
      r.Searches finished [] rest (rest.foldlM (fun finished k =>
        if k ∈ finished then .ok finished else r.walk r.depth [] finished k) finished) from
    hrest r.kinds [] (List.Subset.refl _)
  intro rest
  induction rest with
  | nil => exact fun finished _ => .over
  | cons k rest ih =>
    intro finished hsub
    rw [List.cons_subset] at hsub
    rw [List.foldlM_cons]
    split
    · next hk => exact .pass hk (ih finished hsub.2)
    · next hk =>
      -- nothing is on the stack yet
      have hpath : (([] : List (K × List K)).map Prod.fst) = ([] : List K).reverse := rfl
      refine .setOut hk (searches_walk hclosed r.depth hpath (by simp) ?_ (by simp) ?_)
      · intro x hx
        rw [List.nil_append, List.mem_singleton] at hx
        exact hx ▸ hsub.1
      · cases r.walk r.depth [] finished k with
        | ok finished' => exact ih finished' hsub.2
        | error cycle => rfl

/-! ## The verdict -/

/-- What validation says of a registry. -/
structure JudgedRightly (r : Registry K) : Prop where
  accepted_iff : r.validate = .ok () ↔
    (∀ k q, r.Mentions k q → r.Contains q) ∧ ∀ k, ¬ Relation.TransGen r.Needs k k
  requirement : ∀ k q, r.validate = .error (.unregisteredRequirement k q) →
    r.FirstUnsettled k ∧ q ∈ r.requirements k ∧ ¬ r.Contains q
  byproduct : ∀ k q, r.validate = .error (.unregisteredByproduct k q) →
    r.FirstUnsettled k ∧ q ∈ r.byproducts k ∧ ¬ r.Contains q
  cycle : ∀ path, r.validate = .error (.cycle path) →
    (∀ k q, r.Mentions k q → r.Contains q) ∧ r.IsCycle path
  /-- There are no other complaints. -/
  registered : ∀ k, r.validate ≠ .error (.unregisteredKind k)
  /-- Without a bound too, the search for cycles comes to an end, and its answer decides. -/
  ends : (∀ k q, r.Mentions k q → r.Contains q) →
    ∃ answer, r.Searches [] [] r.kinds answer ∧
      r.validate = (answer.map fun _ => ()).mapError .cycle

/-- What is found before the search for cycles. -/
theorem validate_of_firstDangling {e : ConfigError K} (h : r.firstDangling = some e) :
    r.validate = .error e := by
  unfold validate
  rw [h]

/-- Where all mentions are registered, the search for cycles decides. -/
theorem validate_of_settled (h : ∀ k, r.Settled k) :
    r.validate = (r.walkAll.map fun _ => ()).mapError .cycle := by
  unfold validate
  rw [firstDangling_eq_none_iff.2 h]
  cases r.walkAll <;> rfl

/-- A registry is valid if everything mentioned is registered and nothing requires itself, even through
others. -/
theorem validate_eq_ok_iff :
    r.validate = .ok () ↔ (∀ k, r.Settled k) ∧ ∀ k, ¬ Relation.TransGen r.Needs k k := by
  constructor
  · intro h
    obtain ⟨L⟩ := nonempty_layers h
    refine ⟨?_, L.not_transGen⟩
    rw [← firstDangling_eq_none_iff, Option.eq_none_iff_forall_ne_some]
    intro e he
    rw [validate_of_firstDangling he] at h
    cases h
  · rintro ⟨hsettled, hacyclic⟩
    rw [validate_of_settled hsettled]
    cases hwalk : r.walkAll with
    | ok finished => rfl
    | error cycle =>
      obtain ⟨k, hk⟩ := (isCycle_of_walkAll hwalk).exists_transGen
      exact absurd hk (hacyclic k)

/-- What a refused registry is refused for. -/
theorem validate_eq_error {e : ConfigError K} (h : r.validate = .error e) :
    (∃ k q, r.FirstUnsettled k ∧ ¬ r.Contains q ∧
      (q ∈ r.requirements k ∧ e = .unregisteredRequirement k q ∨
        q ∈ r.byproducts k ∧ e = .unregisteredByproduct k q)) ∨
      (∀ k, r.Settled k) ∧ ∃ path, r.IsCycle path ∧ e = .cycle path := by
  cases hdangling : r.firstDangling with
  | some e' =>
    rw [validate_of_firstDangling hdangling] at h
    cases h
    exact Or.inl (firstDangling_eq_some hdangling)
  | none =>
    have hsettled := firstDangling_eq_none_iff.1 hdangling
    rw [validate_of_settled hsettled] at h
    cases hwalk : r.walkAll with
    | ok finished =>
      rw [hwalk] at h
      cases h
    | error cycle =>
      rw [hwalk] at h
      cases h
      exact Or.inr ⟨hsettled, cycle, isCycle_of_walkAll hwalk, rfl⟩

/-- Every registry is judged rightly. -/
theorem validation_sound_and_complete (r : Registry K) : r.JudgedRightly where
  accepted_iff := validate_eq_ok_iff
  requirement k q h := by
    obtain ⟨_, _, hfirst, hnot, ⟨hq, heq⟩ | ⟨-, heq⟩⟩ | ⟨-, _, -, heq⟩ := validate_eq_error h
    · cases heq
      exact ⟨hfirst, hq, hnot⟩
    · cases heq
    · cases heq
  byproduct k q h := by
    obtain ⟨_, _, hfirst, hnot, ⟨-, heq⟩ | ⟨hq, heq⟩⟩ | ⟨-, _, -, heq⟩ := validate_eq_error h
    · cases heq
    · cases heq
      exact ⟨hfirst, hq, hnot⟩
    · cases heq
  cycle path h := by
    obtain ⟨_, _, -, -, ⟨-, heq⟩ | ⟨-, heq⟩⟩ | ⟨hsettled, _, hcycle, heq⟩ := validate_eq_error h
    · cases heq
    · cases heq
    · cases heq
      exact ⟨hsettled, hcycle⟩
  registered k h := by
    obtain ⟨_, _, -, -, ⟨-, heq⟩ | ⟨-, heq⟩⟩ | ⟨-, _, -, heq⟩ := validate_eq_error h <;> cases heq
  ends h := by
    refine ⟨r.walkAll, searches_walkAll ?_, validate_of_settled h⟩
    exact closed_of_firstDangling (firstDangling_eq_none_iff.2 h)

/-- The cycle begins where the search comes back to, not where it set out. -/
example :
    let registry : Registry Nat :=
      ⟨⟨[(0, Provider.leaf.requires [3, 1]), (1, Provider.leaf.requires [2]),
        (2, Provider.leaf.requires [3, 1]), (3, .leaf)], by decide⟩⟩
    registry.validate = .error (.cycle [1, 2, 1]) := rfl

end Registry

end TextIndex
