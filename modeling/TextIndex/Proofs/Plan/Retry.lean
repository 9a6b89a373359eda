import Mathlib.Data.Finset.Max
import TextIndex.Proofs.Plan.Drain
import TextIndex.Proofs.Plan.Resume

/-!
# Requests that are made again

A request that is refused something stops in the middle of a walk. What it has counted stays, and the
run takes a further request, which walks every path from the start and counts on top of that.

How far the counts are off then is a matter of one number for each kind, its `leftover`: the degree
that exceeds the number of counted kinds that require it. A request that succeeds counts every
consumer and the client, so the leftover is what comes on top (`Recounted`), and nobody ever takes it
away. In the end a kind that the client did not ask for is there exactly if it has a leftover.

An attempt that fails leaves something over as soon as it has counted anything at all, because among the
counted kinds there is one that no other requires.
-/

set_option autoImplicit false

namespace TextIndex

variable {K E S : Type} [DecidableEq K]

/-- What has been released since it last appeared is not there. -/
theorem Log.Drained.not_holds {r : Registry K} {log : Log K} {k : K} (h : log.Drained r k) :
    ¬ log.Holds k := by
  rintro ⟨before, compressed, after, hsplit, hkept⟩
  obtain ⟨e, he, hdrops⟩ := h before _ after hsplit ⟨k, rfl, Or.inl rfl⟩
  exact hkept e he hdrops

namespace Run

/-! ## What is left over -/

/-- The counts of a kind beyond one for every counted kind that requires it. -/
def leftover (r : Run K) (x : K) : Nat := r.degrees.degree x - r.consumers x

/-- What is left over is what was counted beyond the consumers. -/
theorem Counted.leftover_eq {r : Run K} {extra : K → Nat} (h : r.Counted extra) :
    r.leftover = extra := by
  funext x
  unfold leftover
  rw [h.balanced, Nat.add_sub_cancel_left]

/-- Where nothing has been counted nothing is left over. -/
theorem leftover_of_not_contains {r : Run K} {x : K} (h : ¬ r.degrees.Contains x) :
    r.leftover x = 0 := by
  have hzero : ¬ 0 < r.degrees.degree x := fun hpos => h (DegreeMap.contains_of_degree_pos hpos)
  unfold leftover
  omega

/-- A counted kind of the highest level has no counted consumer, so its count is left over. -/
theorem Counted.exists_leftover {r : Run K} (L : r.registry.Layers) {extra : K → Nat}
    (h : r.Counted extra) {k : K} (hk : r.degrees.Contains k) :
    ∃ x, r.degrees.Contains x ∧ 0 < r.leftover x := by
  obtain ⟨x, hx, hhighest⟩ := r.degrees.keys.toFinset.exists_max_image L.level
    ⟨k, List.mem_toFinset.2 hk⟩
  have hx : r.degrees.Contains x := List.mem_toFinset.1 hx
  have hnone : r.consumers x = 0 := by
    unfold consumers
    rw [List.countP_eq_zero]
    intro y hy
    have hle := hhighest y (List.mem_toFinset.2 hy)
    have hneeds : x ∉ r.registry.requirements y := fun hxy =>
      absurd (L.level_lt hxy) (Nat.not_lt.2 hle)
    simp [hneeds]
  refine ⟨x, hx, ?_⟩
  unfold leftover
  rw [hnone]
  exact h.positive x hx

/-! ## Refused attempts -/

/-- A request takes nothing back that was written down. -/
theorem RequestSteps.log_prefix {m : Manager K E S} {s t : Session K (Traced K S)}
    (h : RequestSteps m.traced s t) : s.manager.log <+: t.manager.log := by
  induction h with
  | refl => exact List.prefix_rfl
  | tail _ hstep ih =>
    rcases hstep.log with heq | ⟨e, -, heq⟩
    · rw [heq]
      exact ih
    · rw [heq]
      exact ih.trans (List.prefix_append ..)

/-- An attempt that fails is one more refusal. -/
theorem Refused.refusals_lt {m : Manager K E S} {s t : Session K (Traced K S)}
    {e : ScheduleError K E} (h : Refused m.traced s e t) :
    s.manager.log.refusals < t.manager.log.refusals := by
  obtain ⟨u, k, cause, hsteps, -, hrefused⟩ := h
  have hle : s.manager.log.refusals ≤ u.manager.log.refusals :=
    (RequestSteps.log_prefix hsteps).sublist.countP_le
  rw [Traced.log_of_ask_error hrefused]
  simp only [Log.refusals, List.countP_append] at hle ⊢
  exact Nat.lt_succ_of_le hle

/-- A session before, between or after attempts that failed. -/
structure Interrupted (r : Registry K) (requested : List K) (s : Session K (Traced K S)) : Prop where
  sound : Sound r requested s
  phase_eq : s.run.phase = .fresh
  schedule_eq : s.run.schedule = .empty
  reachable : ∀ k, s.run.degrees.Contains k → r.Reachable requested k

/-- A run that has not been requested is one that has been interrupted before anything. -/
theorem interrupted_start {registry : Registry K} {requested : List K} {mode : Mode} {run : Run K}
    (hstart : Run.start registry requested mode = .ok run) (s : S) :
    Interrupted registry requested ⟨run, Traced.start s⟩ := by
  have hsound := sound_start hstart s
  obtain ⟨-, rfl⟩ := start_ok hstart
  exact ⟨hsound, rfl, rfl, fun k hk => absurd hk (DegreeMap.not_contains_empty k)⟩

/-- The session `t` after a request that succeeded, where failed attempts had led to `s`. -/
structure Recounted (r : Registry K) (requested : List K) (s t : Session K (Traced K S)) : Prop where
  /-- The reachable kinds have been counted, and no others. -/
  contains_iff : ∀ k, t.run.degrees.Contains k ↔ r.Reachable requested k
  /-- The degree of a kind is the number of reachable kinds that require it, one more if it is
  requested, and what the failed attempts left over. -/
  degree_eq : ∀ k, t.run.degrees.degree k =
    {y | r.Reachable requested y ∧ k ∈ r.requirements y}.ncard + (if k ∈ requested then 1 else 0) +
      s.run.leftover k
  /-- So the degrees are those of a request that never failed if the failed attempts have counted
  nothing, and only then. -/
  exact_iff : (∀ k, r.Reachable requested k → t.run.degrees.degree k =
    {y | r.Reachable requested y ∧ k ∈ r.requirements y}.ncard + if k ∈ requested then 1 else 0) ↔
      ∀ k, ¬ s.run.degrees.Contains k

/-- The next attempt counts on top of what is left over, or it is refused something as well. -/
theorem Interrupted.request {r : Registry K} (L : r.Layers) {requested : List K}
    {m : Manager K E S} {s : Session K (Traced K S)} (h : Interrupted r requested s) :
    Ends (Run.request m.traced) s
      (fun _ t => Recounted r requested s t ∧ Primed r requested s.run.leftover t)
      fun e t => (∃ k cause, e = .manager k cause) ∧
        s.manager.log.refusals < t.manager.log.refusals ∧ Interrupted r requested t := by
  obtain ⟨⟨extra, hcounted⟩, hlive⟩ := h.sound.counted h.phase_eq
  have hreg := h.sound.registry_eq
  obtain rfl : s.run.leftover = extra := hcounted.leftover_eq
  have honly : ∀ {t : Session K (Traced K S)},
      CountsOnly (fun x => r.Reachable s.run.requestedKinds.toList x) s t →
      ∀ k, t.run.degrees.Contains k → r.Reachable requested k := fun hcounts k hk =>
    (hcounts k hk).elim (h.reachable k) (Registry.reachable_congr h.sound.mem_requestedKinds).1
  refine ((request_counts L m.traced h.phase_eq hreg hcounted).and (h.sound.request L)).mono ?_ ?_
  · rintro - t ⟨⟨u, hsteps, hu, hcounts, rfl⟩, hsound⟩
    have hrun := RequestSteps.run_eq hsteps
    have hreg' : u.run.registry = r := (RequestSteps.registry_eq hsteps).trans hreg
    have hreq : u.run.requestedKinds = s.run.requestedKinds := by rw [hrun]
    rw [← hreq] at hu
    have hcontains : ∀ k, u.run.degrees.Contains k ↔ r.Reachable requested k := by
      refine fun k => ⟨honly hcounts k, fun hk => hu.contains_of_reachable ?_ ?_⟩
      · intro x hx
        rw [count_requested, if_pos hx]
        omega
      · rw [hreg']
        exact (Registry.reachable_congr hsound.mem_requestedKinds).2 hk
    have hdegree : ∀ k, u.run.degrees.degree k =
        {y | r.Reachable requested y ∧ k ∈ r.requirements y}.ncard +
          (if k ∈ requested then 1 else 0) + s.run.leftover k := by
      intro k
      have hclient : (if k ∈ u.run.requestedKinds then 1 else 0) = if k ∈ requested then 1 else 0 :=
        if_congr (hsound.mem_requestedKinds k) rfl rfl
      rw [hu.balanced, consumers_eq_ncard hu hcontains, hreg', count_requested, hclient]
      omega
    refine ⟨⟨hcontains, hdegree, ⟨fun hall k hk => ?_, fun hnone k _ => ?_⟩⟩, ?_⟩
    · obtain ⟨x, hx, hpos⟩ := hcounted.exists_leftover (hreg ▸ L) hk
      have hexact := hall x (h.reachable x hx)
      have hdeg := hdegree x
      have : u.run.degrees.degree x = _ := hexact
      omega
    · show u.run.degrees.degree k = _
      rw [hdegree k, leftover_of_not_contains (hnone k), Nat.add_zero]
    · exact primed_of_counted hsound hu (by rw [hrun]; exact hlive)
        (by rw [hrun]; exact h.schedule_eq) hcontains
  · rintro e t ⟨⟨hsteps, ⟨-, hcounts⟩, hrefused⟩, hsound, -⟩
    have hrun := RequestSteps.run_eq hsteps
    refine ⟨?_, hrefused.refusals_lt, hsound, ?_, ?_, honly hcounts⟩
    · obtain ⟨-, k, cause, -, he, -⟩ := hrefused
      exact ⟨k, cause, he⟩
    · rw [hrun]
      exact h.phase_eq
    · rw [hrun]
      exact h.schedule_eq

/-! ## Attempts in a row -/

/-- A client whose request succeeds gets no schedule yet. -/
theorem serve_request_ok {m : Manager K E S} {s t : Session K S} (h : request m s = .ok () t) :
    serve m .request s = .ok none t := bind_apply_eq_ok.2 ⟨_, _, h, rfl⟩

/-- A client whose request fails is told why. -/
theorem serve_request_error {m : Manager K E S} {s t : Session K S} {e : ScheduleError K E}
    (h : request m s = .error e t) : serve m .request s = .error e t := by
  show EStateM.bind (request m) _ s = _
  unfold EStateM.bind
  rw [h]

/-- With fewer than `budget` refusals to come, fewer than `budget` attempts fail before one succeeds. -/
theorem Interrupted.retry {r : Registry K} (L : r.Layers) {requested : List K} {m : Manager K E S}
    (budget : Nat) : ∀ {s : Session K (Traced K S)}, Interrupted r requested s →
      (∀ n, (afterCalls m.traced .request n s).manager.log.refusals <
        s.manager.log.refusals + budget) →
      ∃ n < budget, ∃ failures t,
        serveAll m.traced (List.replicate (n + 1) .request) s = (failures ++ [.ok none], t) ∧
        (∀ o ∈ failures, ∃ k cause, o = .error (.manager k cause)) ∧
        Recounted r requested (afterCalls m.traced .request n s) t ∧
        Primed r requested (afterCalls m.traced .request n s).run.leftover t := by
  induction budget with
  | zero =>
    intro s h hfinite
    exact absurd (hfinite 0) (Nat.lt_irrefl _)
  | succ budget ih =>
    intro s h hfinite
    cases hrequest : Run.request m.traced s with
    | ok _ t =>
      exact ⟨0, Nat.succ_pos _, [], t, serveAll_cons_of_ok (serve_request_ok hrequest) [], by simp,
        (h.request L).of_ok hrequest⟩
    | error e t =>
      obtain ⟨⟨k, cause, rfl⟩, hlt, hnext⟩ := (h.request L).of_error hrequest
      have hserve := serve_request_error hrequest
      obtain ⟨n, hn, failures, u, hfailures, hall, hcounts⟩ := ih hnext fun n => by
        have hle := hfinite (n + 1)
        rw [afterCalls_succ hserve] at hle
        omega
      refine ⟨n + 1, Nat.succ_lt_succ hn, .error (.manager k cause) :: failures, u, ?_, ?_, ?_⟩
      · rw [List.replicate_succ, serveAll_cons_of_error hserve, hfailures]
        rfl
      · intro o ho
        rcases List.mem_cons.1 ho with rfl | ho
        · exact ⟨k, cause, rfl⟩
        · exact hall o ho
      · rwa [afterCalls_succ hserve]

/-- Evaluating a primed session fails only where the manager does. If it succeeds, of the kinds that the
client did not ask for those with slack are there, and no others. -/
theorem Primed.ends_evaluate {r : Registry K} (L : r.Layers) {requested : List K} {slack : K → Nat}
    {m : Manager K E S} {t : Session K (Traced K S)} (h : Primed r requested slack t) :
    Ends (Run.evaluate m.traced) t
      (fun schedule u => Evaluated r requested slack schedule u ∧
        ∀ k, k ∉ requested → (u.manager.log.Holds k ↔ 0 < slack k))
      fun e _ => ∃ k cause, e = .manager k cause := by
  cases hevaluate : Run.evaluate m.traced t with
  | ok schedule u =>
    have hend := h.evaluated L hevaluate
    refine ends_of_ok hevaluate ⟨hend, fun k hk => ⟨fun hheld => ?_, fun hpos => ?_⟩⟩
    · exact (hend.drained k hk).resolve_left fun hdrained => hdrained.not_holds hheld
    · exact hend.held k (Nat.lt_of_lt_of_le hpos (Nat.le_add_left ..))
  | error e u =>
    obtain ⟨c, hsteps, hstop⟩ :=
      (evaluate_follows L m.traced h.phase_eq h.sound.registry_eq).of_error hevaluate
    exact ends_of_error hevaluate ((h.balance.steps hsteps).stop hstop).2

/-- If a manager refuses only finitely often, requests in a row fail until one succeeds. That one counts
every consumer once and the client, on top of what the failed ones left over; and an evaluation
that succeeds leaves, of the kinds that the client did not ask for, those with a leftover. -/
theorem retried_request_counts {registry : Registry K} {requested : List K} {mode : Mode}
    {run : Run K} (hstart : Run.start registry requested mode = .ok run) {m : Manager K E S} {s₀ : S}
    {bound : Nat}
    (hfinite : ∀ n,
      (afterCalls m.traced .request n ⟨run, Traced.start s₀⟩).manager.log.refusals ≤ bound) :
    ∃ n ≤ bound, ∃ failures t,
      serveAll m.traced (List.replicate (n + 1) .request) ⟨run, Traced.start s₀⟩ =
        (failures ++ [.ok none], t) ∧
      (∀ o ∈ failures, ∃ k cause, o = .error (.manager k cause)) ∧
      Recounted registry requested (afterCalls m.traced .request n ⟨run, Traced.start s₀⟩) t ∧
      Ends (evaluate m.traced) t
        (fun schedule u => Evaluated registry requested
            (afterCalls m.traced .request n ⟨run, Traced.start s₀⟩).run.leftover schedule u ∧
          ∀ k, k ∉ requested → (u.manager.log.Holds k ↔
            0 < (afterCalls m.traced .request n ⟨run, Traced.start s₀⟩).run.leftover k))
        fun e _ => ∃ k cause, e = .manager k cause := by
  obtain ⟨L⟩ := Registry.nonempty_layers_of_request (start_ok hstart).1
  have hbudget : ∀ n, (afterCalls m.traced .request n ⟨run, Traced.start s₀⟩).manager.log.refusals <
      (Traced.start (K := K) s₀).log.refusals + (bound + 1) := fun n =>
    Nat.lt_of_lt_of_le (Nat.lt_succ_of_le (hfinite n)) (Nat.le_add_left ..)
  obtain ⟨n, hn, failures, t, hserve, hfailures, hrecounted, hprimed⟩ :=
    (interrupted_start hstart s₀).retry L (bound + 1) hbudget
  exact ⟨n, Nat.le_of_lt_succ hn, failures, t, hserve, hfailures, hrecounted,
    hprimed.ends_evaluate L⟩

/-- A kind built from two others, where making the second of these ready is refused at first: the first
request fails and the second one succeeds. -/
theorem retried_request_counts_on_joint :
    let wary : Manager Nat Unit Bool := .hesitant (· = .ensure 1)
    ∃ run, Run.start Registry.joint [2] .plain = .ok run ∧
      (serveAll wary.traced [.request, .request] ⟨run, Traced.start true⟩).1.map Except.isOk =
        [false, true] ∧
      ∃ n ≤ 1, ∃ failures t,
        serveAll wary.traced (List.replicate (n + 1) .request) ⟨run, Traced.start true⟩ =
          (failures ++ [.ok none], t) ∧
        (∀ o ∈ failures, ∃ k cause, o = .error (.manager k cause)) ∧
        Recounted Registry.joint [2] (afterCalls wary.traced .request n ⟨run, Traced.start true⟩) t ∧
        Ends (evaluate wary.traced) t
          (fun schedule u => Evaluated Registry.joint [2]
              (afterCalls wary.traced .request n ⟨run, Traced.start true⟩).run.leftover schedule u ∧
            ∀ k, k ∉ [2] → (u.manager.log.Holds k ↔
              0 < (afterCalls wary.traced .request n ⟨run, Traced.start true⟩).run.leftover k))
          fun e _ => ∃ k cause, e = .manager k cause :=
  have hstart : Run.start Registry.joint [2] .plain = .ok _ := rfl
  ⟨_, hstart, by decide +kernel, retried_request_counts hstart (afterCalls_always
    (P := fun u : Session Nat (Traced Nat Bool) => u.manager.log.refusals ≤ 1)
    2 (serve_request_error (request_again (by decide +kernel))) (by decide +kernel))⟩

/-- Only the third kind is built from the first. -/
theorem zero_mem_requirements_joint (y : Nat) : 0 ∈ Registry.joint.requirements y ↔ y = 2 := by
  by_cases hy : Registry.joint.Contains y
  · have hmem : y ∈ [0, 1, 2] := hy
    simp only [List.mem_cons, List.not_mem_nil, or_false] at hmem
    rcases hmem with rfl | rfl | rfl <;> decide
  · rw [Registry.requirements_of_not_contains hy]
    refine ⟨fun h => absurd h List.not_mem_nil, ?_⟩
    rintro rfl
    exact absurd (by decide) hy

/-- The first kind has been counted when making the second one ready is refused, so the next request
counts it twice, although only one kind requires it. The evaluation meets no refusal, and does not
release it. -/
theorem consumer_counted_twice_after_refusal :
    let wary : Manager Nat Unit Bool := .hesitant (· = .ensure 1)
    ∃ run, Run.start Registry.joint [2] .plain = .ok run ∧
      let counted := serveAll wary.traced [.request, .request] ⟨run, Traced.start true⟩
      let ended := serveAll wary.traced [.evaluate] counted.2
      counted.1.map Except.isOk = [false, true] ∧
        {y | Registry.joint.Reachable [2] y ∧ 0 ∈ Registry.joint.requirements y}.ncard +
          (if 0 ∈ [2] then 1 else 0) = 1 ∧
        counted.2.run.degrees.degree 0 = 2 ∧
        ended.1.map Except.isOk = [true] ∧
        ended.2.manager.log.refusals = counted.2.manager.log.refusals ∧
        ended.2.manager.log.Holds 0 := by
  have honce : {y | Registry.joint.Reachable [2] y ∧ 0 ∈ Registry.joint.requirements y} = {2} := by
    ext y
    rw [Set.mem_ofPred_eq, zero_mem_requirements_joint, Set.mem_singleton_iff]
    refine ⟨And.right, ?_⟩
    rintro rfl
    exact ⟨Registry.reachable_of_mem (by decide), rfl⟩
  refine ⟨_, rfl, by decide +kernel, ?_, by decide +kernel, by decide +kernel, by decide +kernel, ?_⟩
  · rw [honce, Set.ncard_singleton]
    rfl
  · exact ⟨[⟨.ensure 2, true⟩, ⟨.ensure 0, true⟩, ⟨.ensure 1, false⟩, ⟨.ensure 2, true⟩,
      ⟨.ensure 0, true⟩, ⟨.protect 0, true⟩, ⟨.ensure 1, true⟩], false,
      [⟨.construct 1 false, true⟩, ⟨.construct 2 false, true⟩, ⟨.unprotect 0, true⟩,
        ⟨.discard 1 true, true⟩], by decide +kernel, by simp [Entry.Drops]⟩

end Run

end TextIndex
