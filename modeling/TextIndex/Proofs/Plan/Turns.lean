import Mathlib.Algebra.Order.BigOperators.Group.List
import TextIndex.Proofs.Plan.Conservation
import TextIndex.Proofs.Plan.Paths

/-!
# Consumers have their turn before what they need

A kind has more requirement paths than anything that it needs, directly or through others, for every
path from there can be begun one step earlier. Siblings are built by descending cost, and a cost is a
number of paths. So as long as these are 64-bit numbers, no kind is put after something that it needs
(`CostTable.Ranks`).

This decides which of the requested kinds the loop of the evaluation builds itself
(`Run.consumers_have_their_turn_first`). If one of them needs another, its turn comes first, and the
other one is built on the way there. What is left for the loop are the kinds that no reachable kind
requires.
-/

set_option autoImplicit false

namespace TextIndex

open Relation (TransGen)

variable {K : Type} [DecidableEq K]

/-! ## The order -/

/-- What a kind needs has fewer requirement paths. -/
theorem Registry.Layers.ncard_lt {r : Registry K} (L : r.Layers) {k q : K}
    (h : TransGen r.Needs k q) : (r.PathsFrom q).ncard < (r.PathsFrom k).ncard := by
  have hstep : ∀ {k q : K}, r.Needs k q → (r.PathsFrom q).ncard < (r.PathsFrom k).ncard := by
    intro k q hq
    rw [L.ncard_pathsFrom k]
    have hmem : 1 + (r.PathsFrom q).ncard ∈
        (r.requirements k).map fun q => 1 + (r.PathsFrom q).ncard := List.mem_map_of_mem hq
    have hle := List.le_sum_of_mem hmem
    omega
  induction h with
  | single hq => exact hstep hq
  | tail _ hq ih => exact Nat.lt_trans (hstep hq) ih

/-- No kind has more paths than fit a 64-bit number, if no registered kind has. -/
theorem Registry.Layers.toNat_ncard {r : Registry K} (L : r.Layers)
    (hsmall : ∀ k, r.Contains k → (r.PathsFrom k).ncard < UInt64.size) (k : K) :
    (r.PathsFrom k).ncard.toUInt64.toNat = (r.PathsFrom k).ncard := by
  apply UInt64.toNat_ofNat_of_lt'
  by_cases hk : r.Contains k
  · exact hsmall k hk
  · rw [L.ncard_pathsFrom k, requirements_of_not_contains hk]
    exact Nat.two_pow_pos 64

namespace CostTable

variable {r : Registry K}

/-- The prices alone decide the order of siblings. -/
theorem siblings_eq_mergeSort {t : CostTable K} (L : t.registry.Layers) {price : K → UInt64}
    (h : Priced t.registry t.known price) (ks : List K) :
    t.siblings ks = ks.mergeSort fun a b => price b ≤ price a := by
  rw [siblings_eq L h, sort_eq_mergeSort, ← List.map_prod_left_eq_zip,
    ← List.map_mergeSort (r := fun a b => price b ≤ price a) (fun _ _ _ _ => rfl), List.map_map]
  exact List.map_id _

section Price

variable (price : K → UInt64)

omit [DecidableEq K] in
/-- Descending prices are transitive. -/
theorem descending_trans (a b c : K) (hab : decide (price b ≤ price a) = true)
    (hbc : decide (price c ≤ price b) = true) : decide (price c ≤ price a) = true := by
  simp only [decide_eq_true_eq] at *
  exact UInt64.le_trans hbc hab

omit [DecidableEq K] in
/-- Any two prices descend one way or the other. -/
theorem descending_total (a b : K) :
    (decide (price b ≤ price a) || decide (price a ≤ price b)) = true := by
  simp only [Bool.or_eq_true, decide_eq_true_eq]
  exact UInt64.le_total (price b) (price a)

omit [DecidableEq K] in
/-- Sorting by descending price does not move the kinds of one price against each other. -/
theorem filter_mergeSort (ks : List K) (c : UInt64) :
    (ks.mergeSort fun a b => price b ≤ price a).filter (fun k => price k = c) =
      ks.filter fun k => price k = c := by
  have hlen := ((List.mergeSort_perm ks fun a b => price b ≤ price a).filter
    fun k => price k = c).length_eq
  have hprice : ∀ k ∈ ks.filter fun k => price k = c, price k = c :=
    fun k hk => of_decide_eq_true (List.mem_filter.1 hk).2
  have hsorted : (ks.filter fun k => price k = c).Pairwise fun a b => decide (price b ≤ price a) :=
    List.pairwise_of_forall_mem_list fun a ha b hb => by simp [hprice a ha, hprice b hb]
  have hsub := (List.sublist_mergeSort (descending_trans price) (descending_total price) hsorted
    List.filter_sublist).filter fun k => decide (price k = c)
  rw [List.filter_filter] at hsub
  simp only [Bool.and_self] at hsub
  exact (hsub.eq_of_length hlen.symm).symm

end Price

/-- An order of siblings by descending cost that puts no kind after something that it needs. -/
structure Ranks (r : Registry K) (t : CostTable K) (siblings order : List K) : Prop where
  perm : order.Perm siblings
  descending : order.Pairwise fun a b => (cost b t).1 ≤ (cost a t).1
  /-- Those of equal cost keep their order. -/
  stable : ∀ c, order.filter (fun k => (cost k t).1 = c) = siblings.filter fun k => (cost k t).1 = c
  consumers_first : order.Pairwise fun a b => ¬ TransGen r.Needs b a

/-- Every order that a table over a layered registry gives, whatever it has been asked before. -/
theorem ranks (L : r.Layers)
    (hsmall : ∀ k, r.Contains k → (r.PathsFrom k).ncard < UInt64.size) (earlier : List (Query K))
    (siblings : List K) :
    Ranks r ((new r).afterAll earlier) siblings
      (constructionOrder siblings ((new r).afterAll earlier)).1 := by
  have hcharges : Charges r (fun k => (r.PathsFrom k).ncard.toUInt64) ((new r).afterAll earlier) :=
    Charges.afterAll L ⟨rfl, priced_paths L⟩ earlier
  generalize (new r).afterAll earlier = t at hcharges ⊢
  have hcost := fun k => (hcharges.cost L k).1
  obtain ⟨rfl, hpriced⟩ := hcharges
  have horder := siblings_eq_mergeSort L hpriced siblings
  have hsorted := List.pairwise_mergeSort
    (descending_trans fun k => (t.registry.PathsFrom k).ncard.toUInt64) (descending_total _) siblings
  rw [← horder] at hsorted
  refine ⟨constructionOrder_perm siblings t, ?_, ?_, ?_⟩
  · refine hsorted.imp fun hab => ?_
    rw [hcost, hcost]
    exact of_decide_eq_true hab
  · intro c
    simp only [hcost]
    show (t.siblings siblings).filter _ = _
    rw [horder]
    exact filter_mergeSort _ siblings c
  · -- a kind that is needed has the lower price, hence a later place
    refine hsorted.imp fun hab hneeds => ?_
    have hle := UInt64.le_iff_toNat_le.1 (of_decide_eq_true hab)
    rw [L.toNat_ncard hsmall, L.toNat_ncard hsmall] at hle
    exact absurd (L.ncard_lt hneeds) (Nat.not_lt.2 hle)

end CostTable

/-! ## The loop over the requested kinds -/

namespace Run

variable {E S : Type}

/-- The order in which an evaluation turns to the requested kinds. -/
def turns (s : Session K S) : List K := s.run.costs.siblings s.run.requestedKinds.toList

/-- The session in which the first of them has its turn. -/
def beforeTurns (s : Session K S) : Session K S :=
  { s with run := { s.run with
      costs := (CostTable.constructionOrder s.run.requestedKinds.toList s.run.costs).2 } }

/-- The turn of one of them. -/
def turn (m : Manager K E S) (s : Session K S) : K → SessionM K E S Unit :=
  constructKind m s.run.registry.depth true

/-- The kind is built by the loop of the evaluation itself: it has not been built when its turn comes,
but has been after it. -/
def BuildsInTurn (m : Manager K E S) (s : Session K S) (k : K) : Prop :=
  ∃ front back t u, turns s = front ++ k :: back ∧
    front.forM (turn m s) (beforeTurns s) = .ok () t ∧ k ∉ t.run.constructedKinds ∧
    turn m s k t = .ok () u ∧ k ∈ u.run.constructedKinds

/-- An evaluation that succeeds gives each requested kind its turn. -/
theorem turns_ok {m : Manager K E S} {s v : Session K S} {schedule : Schedule K}
    (hphase : s.run.phase = .requested) (h : evaluate m s = .ok schedule v) :
    ∃ t, (turns s).forM (turn m s) (beforeTurns s) = .ok () t := by
  unfold evaluate at h
  rw [get_bind_apply, hphase] at h
  obtain ⟨order, s', hconsult, h⟩ := bind_apply_eq_ok.1 h
  obtain ⟨_, t, hloop, -⟩ := bind_apply_eq_ok.1 h
  cases hconsult
  exact ⟨t, hloop⟩

/-- Nothing is built before what it requires, and the orders of siblings are those of a new table. -/
structure Orderly (r : Registry K) (s : Session K S) : Prop where
  closed : ∀ k ∈ s.run.constructedKinds, ∀ q ∈ s.run.registry.requirements k,
    q ∈ s.run.constructedKinds
  siblings_eq : ∀ ks, s.run.costs.siblings ks = (CostTable.new r).siblings ks

/-- Steps of an evaluation keep a session orderly. -/
theorem Orderly.steps {r : Registry K} {m : Manager K E S} {c c' : Stage K S}
    (h : Orderly r c.session) (hsteps : Steps m c c') : Orderly r c'.session where
  closed k hk q hq := by
    rw [hsteps.registry_eq] at hq
    by_cases hold : k ∈ c.session.run.constructedKinds
    · exact hsteps.built_mono (h.closed k hold q hq)
    · exact hsteps.requirements_built hold hk hq
  siblings_eq ks := (hsteps.siblings_eq ks).trans (h.siblings_eq ks)

/-- Requests and evaluations keep a session orderly, also where they fail. -/
theorem upholds_orderly (r : Registry K) (m : Manager K E S) : Upholds m (Orderly r) where
  requestStep := by
    intro s t hstep _ hs
    have hrun := RequestSteps.run_eq (.single hstep)
    obtain ⟨hclosed, hsiblings⟩ := hs
    constructor
    · rw [hrun]
      exact hclosed
    · rw [hrun]
      exact hsiblings
  requested _ hs := ⟨hs.closed, hs.siblings_eq⟩
  step _ hstep hc := hc.steps (.single hstep)
  stop := by
    intro slack c e t _ hstop hc
    cases hstop <;> exact ⟨hc.closed, hc.siblings_eq⟩
  evaluated hs := ⟨hs.closed, hs.siblings_eq⟩

/-- When the turn of a kind comes, those before it and what they need have been built, and nothing
else. -/
theorem builds_of_front {m : Manager K E S} {s t : Session K S} (L : s.run.registry.Layers)
    {front back : List K} (hsplit : turns s = front ++ back)
    (h : front.forM (turn m s) (beforeTurns s) = .ok () t) :
    Steps m ⟨s, []⟩ ⟨t, []⟩ ∧ Builds s.run.registry front s t := by
  have hconsult : Step m ⟨s, []⟩ ⟨beforeTurns s, []⟩ :=
    .consult (CostTable.registry_constructionOrder s.run.requestedKinds.toList s.run.costs)
      (CostTable.siblings_constructionOrder (t := s.run.costs) L _)
  obtain ⟨hsteps, hbuilds⟩ := (follows_turns m L hsplit (.single hconsult)).of_ok h
  exact ⟨.head hconsult hsteps, hbuilds.built, hbuilds.only⟩

section Evaluation

variable {m : Manager K E S} {s : Session K S} {k : K}

/-- A kind that the loop builds itself had not been built, and no reachable kind requires it. -/
theorem BuildsInTurn.not_required {r : Registry K} (L : s.run.registry.Layers)
    (horderly : Orderly r s)
    (hfirst : (turns s).Pairwise fun a b => ¬ TransGen s.run.registry.Needs b a)
    (h : BuildsInTurn m s k) :
    k ∉ s.run.constructedKinds ∧
      ∀ j, s.run.registry.Reachable s.run.requestedKinds.toList j →
        k ∉ s.run.registry.requirements j := by
  obtain ⟨front, back, t, u, hsplit, hfront, hnew, -, -⟩ := h
  obtain ⟨hsteps, hbuilds⟩ := builds_of_front L hsplit hfront
  refine ⟨fun hold => hnew (hsteps.built_mono hold), ?_⟩
  rintro j ⟨root, hroot, hrootj⟩ hk
  have hneeds : TransGen s.run.registry.Needs root k := .tail' hrootj hk
  -- the requested kind that leads to `k` has its turn first
  have hmem : root ∈ front := by
    have hturn : root ∈ front ++ k :: back := by
      rw [← hsplit]
      exact (CostTable.siblings_perm s.run.costs _).mem_iff.2 hroot
    rw [hsplit, List.pairwise_append, List.pairwise_cons] at hfirst
    rcases List.mem_append.1 hturn with hfront | hback
    · exact hfront
    · rcases List.mem_cons.1 hback with rfl | hback
      · exact absurd (L.ncard_lt hneeds) (Nat.lt_irrefl _)
      · exact absurd hneeds (hfirst.2.1.1 root hback)
  have hclosed : Orderly r t := Orderly.steps (c := ⟨s, []⟩) horderly hsteps
  have hreach : s.run.registry.Reachable front k := ⟨root, hmem, hneeds.to_reflTransGen⟩
  refine hnew (hreach.mem_of_closed (· ∈ t.run.constructedKinds) hbuilds.built ?_)
  intro x hx q hq
  exact hclosed.closed x hx q (by rwa [hsteps.registry_eq])

/-- An evaluation that succeeds builds in the loop itself what no reachable kind requires. -/
theorem buildsInTurn (L : s.run.registry.Layers) {v : Session K S} {schedule : Schedule K}
    (hphase : s.run.phase = .requested) (heval : evaluate m s = .ok schedule v)
    (hk : k ∈ s.run.requestedKinds) (hnew : k ∉ s.run.constructedKinds)
    (hfree : ∀ j, s.run.registry.Reachable s.run.requestedKinds.toList j →
      k ∉ s.run.registry.requirements j) :
    BuildsInTurn m s k := by
  have hturn : ∀ x, x ∈ turns s ↔ x ∈ s.run.requestedKinds.toList :=
    fun x => (CostTable.siblings_perm s.run.costs _).mem_iff
  obtain ⟨front, back, hsplit, hnotin⟩ := List.eq_append_cons_of_mem ((hturn k).2 hk)
  obtain ⟨v, hloop⟩ := turns_ok hphase heval
  rw [hsplit] at hloop
  obtain ⟨t, u, hfront, hu⟩ := forM_append_cons_eq_ok hloop
  obtain ⟨hsteps, hbuilds⟩ := builds_of_front L hsplit hfront
  have hbuilt := (follows_turn m L hsplit hsteps hbuilds.built).of_ok hu
  refine ⟨front, back, t, u, hsplit, hfront, ?_, hu, hbuilt.2.built k (List.mem_singleton_self k)⟩
  intro hkt
  rcases hbuilds.only k hkt with hold | ⟨root, hroot, hrootk⟩
  · exact hnew hold
  · -- what was built on the way to another kind is required by a kind on that way
    rcases hrootk.cases_tail with rfl | ⟨j, hj, hjk⟩
    · exact hnotin hroot
    · have hmem : root ∈ turns s := by
        rw [hsplit]
        exact List.mem_append_left _ hroot
      exact hfree j ⟨root, (hturn root).1 hmem, hj⟩ hjk

/-- Which requested kinds are built by the loop itself, after any calls. -/
theorem Kept.buildsInTurn_iff {r : Registry K} {requested : List K} (L : r.Layers)
    (hfirst : ∀ ks, ((CostTable.new r).siblings ks).Pairwise fun a b => ¬ TransGen r.Needs b a)
    (h : Kept r requested (Orderly r) s) {t : Session K S} {schedule : Schedule K}
    (heval : Run.evaluate m s = .ok schedule t) (hk : k ∈ requested) :
    BuildsInTurn m s k ↔
      k ∉ s.run.constructedKinds ∧ ∀ j, r.Reachable requested j → k ∉ r.requirements j := by
  obtain ⟨hphase, -⟩ := h.evaluate_ok L (upholds_orderly r m) heval
  have horderly := h.upheld
  simp only [← Registry.reachable_congr h.mem_requestedKinds]
  obtain rfl := h.registry_eq
  constructor
  · intro hturn
    refine hturn.not_required L horderly ?_
    rw [turns, horderly.siblings_eq]
    exact hfirst _
  · rintro ⟨hnew, hfree⟩
    exact buildsInTurn L hphase heval ((h.mem_requestedKinds k).2 hk) hnew hfree

end Evaluation

/-- On a valid registry whose costs are 64-bit numbers, siblings are ordered by descending cost, those
of equal cost as they were given, and nothing stands after something that it needs. So an evaluation
that succeeds builds a requested kind in the loop over the requested ones if and only if no reachable
kind requires it. If other calls went before, it passes over what they have built. -/
theorem consumers_have_their_turn_first {registry : Registry K} (hvalid : registry.validate = .ok ())
    (hsmall : ∀ k, registry.Contains k → (registry.PathsFrom k).ncard < UInt64.size) :
    (∀ (earlier : List (CostTable.Query K)) (siblings : List K),
      let t := (CostTable.new registry).afterAll earlier
      t.Ranks registry siblings (CostTable.constructionOrder siblings t).1) ∧
    ∀ {requested : List K} {mode : Mode} {run : Run K},
      Run.start registry requested mode = .ok run →
      ∀ {E S : Type} (m : Manager K E S) (s₀ : S),
        (∀ s schedule t, request m ⟨run, s₀⟩ = .ok () s → evaluate m s = .ok schedule t →
          ∀ k ∈ requested, BuildsInTurn m s k ↔
            ∀ j, registry.Reachable requested j → k ∉ registry.requirements j) ∧
        ∀ calls schedule t, evaluate m (serveAll m calls ⟨run, s₀⟩).2 = .ok schedule t →
          ∀ k ∈ requested, BuildsInTurn m (serveAll m calls ⟨run, s₀⟩).2 k ↔
            k ∉ (serveAll m calls ⟨run, s₀⟩).2.run.constructedKinds ∧
              ∀ j, registry.Reachable requested j → k ∉ registry.requirements j := by
  obtain ⟨L⟩ := Registry.nonempty_layers hvalid
  have hranks := CostTable.ranks L hsmall
  refine ⟨hranks, ?_⟩
  intro requested mode run hstart E S m s₀
  have horderly : Orderly registry (⟨run, s₀⟩ : Session K S) := by
    obtain ⟨-, rfl⟩ := start_ok hstart
    exact ⟨fun k hk => absurd hk (KindSet.not_mem_empty k), fun ks => rfl⟩
  have hall : ∀ calls schedule t, evaluate m (serveAll m calls ⟨run, s₀⟩).2 = .ok schedule t →
      ∀ k ∈ requested, BuildsInTurn m (serveAll m calls ⟨run, s₀⟩).2 k ↔
        k ∉ (serveAll m calls ⟨run, s₀⟩).2.run.constructedKinds ∧
          ∀ j, registry.Reachable requested j → k ∉ registry.requirements j := by
    intro calls schedule t heval k hk
    have hkept := (kept_serveAll hstart (upholds_orderly registry m) horderly calls).1
    exact hkept.buildsInTurn_iff L (fun ks => (hranks [] ks).consumers_first) heval hk
  refine ⟨?_, hall⟩
  intro s schedule t hrequest heval k hk
  have hserve : (serveAll m [.request] ⟨run, s₀⟩).2 = s := by
    have hcall : serve m .request ⟨run, s₀⟩ = .ok none s :=
      bind_apply_eq_ok.2 ⟨_, _, hrequest, rfl⟩
    simp only [serveAll, hcall]
  have hiff := hall [.request] schedule t (by rwa [hserve]) k hk
  rw [hserve] at hiff
  -- nothing has been built when the request phase is over
  obtain ⟨u, -, hcounted, -, rfl⟩ := request_ok hstart hrequest
  rw [hiff]
  refine and_iff_right ?_
  show k ∉ u.run.constructedKinds
  rw [hcounted.unbuilt]
  exact KindSet.not_mem_empty k

/-- The foot and the top of a diamond are requested, the foot first. -/
theorem consumers_have_their_turn_first_on_diamond :
    Registry.diamond.validate = .ok () ∧
      (∀ k, Registry.diamond.Contains k → (Registry.diamond.PathsFrom k).ncard < UInt64.size) ∧
      (CostTable.new Registry.diamond).Ranks Registry.diamond [0, 2, 7, 1, 3]
        (CostTable.constructionOrder [0, 2, 7, 1, 3] (.new Registry.diamond)).1 ∧
      ∃ run, Run.start Registry.diamond [0, 3] .delayed = .ok run ∧
        ∃ s, request Recorder.manager ⟨run, .new none⟩ = .ok () s ∧
          ∃ schedule t, evaluate Recorder.manager s = .ok schedule t ∧
            ∀ k ∈ [0, 3], BuildsInTurn Recorder.manager s k ↔
              ∀ j, Registry.diamond.Reachable [0, 3] j → k ∉ Registry.diamond.requirements j := by
  have hvalid : Registry.diamond.validate = .ok () := rfl
  have hsmall : ∀ k, Registry.diamond.Contains k →
      (Registry.diamond.PathsFrom k).ncard < UInt64.size := by
    obtain ⟨L⟩ := Registry.nonempty_layers hvalid
    intro k hk
    rw [L.ncard_eq_length (Nat.le_of_lt (L.level_lt_depth k))]
    have hlisted : ∀ k ∈ Registry.diamond.kinds,
      (Registry.diamond.pathsWithin Registry.diamond.depth k).length < UInt64.size := by decide
    exact hlisted k hk
  have hphases : ∃ run, Run.start Registry.diamond [0, 3] .delayed = .ok run ∧ ∃ schedule t,
      (request Recorder.manager >>= fun _ => evaluate Recorder.manager) ⟨run, .new none⟩ =
        .ok schedule t := ⟨_, rfl, exists_of_isOk (by decide +kernel)⟩
  obtain ⟨run, hstart, schedule, t, hphases⟩ := hphases
  obtain ⟨_, s, hrequest, heval⟩ := bind_apply_eq_ok.1 hphases
  obtain ⟨hranks, hloop⟩ := consumers_have_their_turn_first hvalid hsmall
  exact ⟨hvalid, hsmall, hranks [] _, run, hstart, s, hrequest, schedule, t, heval,
    (hloop hstart Recorder.manager (.new none)).1 s schedule t hrequest heval⟩

end Run

end TextIndex
