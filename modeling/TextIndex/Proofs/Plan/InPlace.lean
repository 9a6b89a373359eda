import TextIndex.Proofs.Plan.Client
import TextIndex.Proofs.Plan.Tracking

/-!
# Storage is reused for the last consumer only

After a first request that succeeds, and whatever the manager refuses from then on, a client finds the
protected kinds to be those with several consumers, and so does a manager that writes protections
down.

* An unprotected requirement of the kind that is to be built belongs to that kind alone.
* When an evaluation ends well and no compression was refused, every reachable kind has been built, so
  every degree that was two or more has passed through one: the kinds that were not asked for have been
  unprotected once each, after all their consumers but the last.
-/

set_option autoImplicit false

namespace TextIndex.Run

variable {K E S : Type} [DecidableEq K]

/-! ## Between the calls of a client -/

/-- What holds between any two calls, once a first request has succeeded. -/
structure Tracked (r : Registry K) (requested : List K) (first : K → Nat) (m : Manager K E S) (s₀ : S)
    (s : Session K (Traced K S)) : Prop where
  begun : s.run.phase ≠ .fresh
  tracking : ∃ slack, Tracking r requested first m s₀ slack ⟨s, []⟩
  exact_of_compressed : (∀ k, ⟨.compress k, false⟩ ∉ s.manager.log) → Exact r requested ⟨s, []⟩

section Tracked

variable {r : Registry K} {requested : List K} {first : K → Nat} {m : Manager K E S} {s₀ : S}
  {s : Session K (Traced K S)}

/-- An evaluation, also one that fails, keeps all this. -/
theorem Tracked.evaluate (L : r.Layers) (h : Tracked r requested first m s₀ s) :
    Ends (Run.evaluate m.traced) s (fun _ t => Tracked r requested first m s₀ t)
      fun _ t => Tracked r requested first m s₀ t := by
  obtain ⟨slack, htrack⟩ := h.tracking
  cases hphase : s.run.phase with
  | fresh => exact absurd hphase h.begun
  | evaluated => exact ends_of_error (evaluate_again hphase) h
  | requested =>
    apply (evaluate_follows L m.traced hphase htrack.registry_eq).mono
    · rintro schedule t ⟨u, hsteps, -, -, rfl⟩
      refine ⟨by simp, ⟨slack, (htrack.steps hsteps).frame rfl rfl⟩, ?_⟩
      intro hcompress
      have hexact := (h.exact_of_compressed fun k hk =>
        hcompress k (hsteps.log_prefix.subset hk)).steps htrack hsteps
      exact ⟨hexact.balance.frame rfl rfl rfl rfl rfl fun _ => rfl, hexact.once, hexact.leaves⟩
    · rintro e t ⟨c, hsteps, hstop⟩
      have htrack' := htrack.steps hsteps
      obtain ⟨⟨slack', hbalance⟩, -⟩ := htrack'.balance.stop hstop
      refine ⟨?_, ⟨slack', htrack'.stop hstop hbalance⟩, ?_⟩
      · rw [hstop.keeps.2.2, hsteps.phase_eq, hphase]
        simp
      · intro hcompress
        have hbefore : ∀ k, ⟨.compress k, false⟩ ∉ s.manager.log := fun k hk =>
          hcompress k (hstop.log_prefix.subset (hsteps.log_prefix.subset hk))
        exact ((h.exact_of_compressed hbefore).steps htrack hsteps).stop htrack' hstop hcompress

/-- Each call of a client keeps the counts tracked, also if it fails. -/
theorem Tracked.serve (L : r.Layers) (h : Tracked r requested first m s₀ s) (call : PhaseCall) :
    Ends (Run.serve m.traced call) s (fun _ t => Tracked r requested first m s₀ t)
      fun _ t => Tracked r requested first m s₀ t := by
  cases call with
  | request =>
    unfold Run.serve
    rw [ends_bind]
    exact ends_of_error (request_again h.begun) h
  | evaluate =>
    unfold Run.serve
    rw [ends_bind]
    exact (h.evaluate L).mono (fun _ t ht => ht) (fun _ _ hF => hF)

end Tracked

/-- A first request that succeeds leaves the protected kinds to be those with several consumers, and
every record agrees. -/
theorem tracked_of_request {registry : Registry K} {requested : List K} {mode : Mode} {run : Run K}
    (hstart : Run.start registry requested mode = .ok run) {m : Manager K E S} {s₀ : S}
    {t : Session K (Traced K S)} (hrequest : request m.traced ⟨run, Traced.start s₀⟩ = .ok () t) :
    Tracked registry requested t.run.degrees.degree m s₀ t := by
  obtain ⟨L⟩ := Registry.nonempty_layers_of_request (start_ok hstart).1
  have hsound := ((sound_start hstart s₀).request L).of_ok hrequest
  obtain ⟨u, hsteps, hcounted, hcontains, rfl⟩ := request_ok hstart hrequest
  have hfresh : run.live = .zero ∧ run.protectedKinds = .empty ∧ run.degrees = .empty := by
    obtain ⟨-, rfl⟩ := start_ok hstart
    exact ⟨rfl, rfl, rfl⟩
  have hprotected : ∀ k, k ∈ u.run.protectedKinds ↔ 2 ≤ u.run.degrees.degree k := by
    apply hsteps.protected_iff
    intro k
    simp [hfresh]
  have hbalance : Balance (fun _ => 0) ⟨u, []⟩ := by
    apply Counted.balance
    · simpa using hcounted
    · rw [RequestSteps.run_eq hsteps]
      exact hfresh.1
  have hunprotect : ∀ k, ∀ e ∈ u.manager.log, e.event ≠ .unprotect k := fun k =>
    hsteps.event_ne (by simp [Event.action]) (by simp [Event.action])
  refine ⟨by simp, ⟨fun _ => 0, ?_⟩, fun _ => ?_⟩
  · exact {
      registry_eq := hsound.registry_eq
      mem_requested := hsound.mem_requestedKinds
      contains_iff := hcontains
      balance := hbalance.frame rfl rfl rfl rfl rfl fun _ => rfl
      safe := hsound.safe
      guarded := by
        refine ⟨fun k => ?_, fun k => Nat.le_refl _⟩
        show k ∈ u.run.protectedKinds ↔ _
        rw [hprotected]
        exact ⟨Or.inl, fun h => h.elim id And.right⟩
      agrees := by
        intro held hm hstart'
        have hbegin : Agrees held (⟨run, Traced.start s₀⟩ : Session K (Traced K S)) := by
          intro k
          rw [hfresh.2.1]
          exact ⟨fun hk => absurd hk (hstart' k), fun hk => absurd hk (KindSet.not_mem_empty k)⟩
        have hagrees : Agrees held u := hbegin.requestSteps hm hsteps
        exact fun k => hagrees k
      reuse := by
        apply Log.always_of_mem
        intro e he before k compressed hevent
        exact absurd hevent (hsteps.event_ne (by simp [Event.action]) (by simp [Event.action]) e he)
      unprotected := by
        intro k
        show Log.received u.manager.log (.unprotect k) = if k ∉ u.run.requestedKinds ∧
          u.run.degrees.degree k ≤ 1 ∧ 2 ≤ u.run.degrees.degree k then 1 else 0
        rw [if_neg (by omega)]
        exact Log.received_of_not_mem (hunprotect k) }
  · refine ⟨hbalance.frame rfl rfl rfl rfl rfl fun _ => rfl, fun k => Nat.zero_le 1, ?_⟩
    apply Log.always_of_mem
    intro e he before k hevent
    exact absurd hevent (hunprotect k e he)

/-- What the evaluation has unprotected when it ends well. -/
structure UnprotectsOnce (r : Registry K) (requested : List K) (first : K → Nat) (log : Log K) :
    Prop where
  /-- Once each, the kinds that the client did not ask for and that had several consumers. -/
  received : ∀ k, log.received (.unprotect k) = if k ∉ requested ∧ 2 ≤ first k then 1 else 0
  /-- This was after all consumers but the last one had been built, and before that one was. -/
  between : ∀ (before : Log K) k accepted (after : Log K), log = before ++ ⟨.unprotect k, accepted⟩ :: after →
    ∃ last, before.LastConsumer r requested k last ∧ last ∈ after.builtKinds

/-- An evaluation that ends well has built all that is reachable. -/
theorem Tracked.built_of_evaluate {r : Registry K} (L : r.Layers) {requested : List K}
    {first : K → Nat} {m : Manager K E S} {s₀ : S} {s t : Session K (Traced K S)}
    (h : Tracked r requested first m s₀ s) {schedule : Schedule K}
    (hevaluate : Run.evaluate m.traced s = .ok schedule t) {y : K} (hy : r.Reachable requested y) :
    y ∈ t.run.constructedKinds := by
  have hdone := (h.evaluate L).of_ok hevaluate
  obtain ⟨slack, htrack⟩ := hdone.tracking
  obtain ⟨slack₀, htrack₀⟩ := h.tracking
  have hphase : s.run.phase = .requested := by
    cases hphase : s.run.phase with
    | fresh => exact absurd hphase h.begun
    | requested => rfl
    | evaluated => cases (evaluate_again (m := m.traced) hphase).symm.trans hevaluate
  obtain ⟨u, hsteps, hall, -, rfl⟩ :=
    (evaluate_follows L m.traced hphase htrack₀.registry_eq).of_ok hevaluate
  refine hy.mem_of_closed (· ∈ u.run.constructedKinds) ?_ ?_
  · exact fun k hk => hall k ((htrack₀.mem_requested k).2 hk)
  · intro k hk q hq
    apply htrack.safe.closed (k := k) hk
    rw [htrack.registry_eq]
    exact hq

/-- If no compression was refused, every kind was unprotected that had to be, at its moment. -/
theorem Tracked.unprotects_once {r : Registry K} (L : r.Layers) {requested : List K}
    {first : K → Nat} {m : Manager K E S} {s₀ : S} {s t : Session K (Traced K S)}
    (h : Tracked r requested first m s₀ s) {schedule : Schedule K}
    (hevaluate : Run.evaluate m.traced s = .ok schedule t)
    (hcompress : ∀ k, ⟨.compress k, false⟩ ∉ t.manager.log) :
    UnprotectsOnce r requested first t.manager.log := by
  have hdone := (h.evaluate L).of_ok hevaluate
  obtain ⟨slack, htrack⟩ := hdone.tracking
  have hexact := hdone.exact_of_compressed hcompress
  have hbuilt : ∀ y, r.Reachable requested y → y ∈ t.run.constructedKinds :=
    fun y hy => h.built_of_evaluate L hevaluate hy
  constructor
  · intro k
    rw [htrack.unprotected k]
    have hdegree := hexact.balance.degree_of_built
      (fun y hy => hbuilt y ((htrack.contains_iff y).1 hy)) k
    apply if_congr _ rfl rfl
    rw [htrack.mem_requested]
    constructor
    · exact fun hk => ⟨hk.1, hk.2.2⟩
    · rintro ⟨hk, htwo⟩
      have hk' : k ∉ t.run.requestedKinds := fun hmem => hk ((htrack.mem_requested k).1 hmem)
      rw [if_neg hk'] at hdegree
      refine ⟨hk, ?_, htwo⟩
      show t.run.degrees.degree k ≤ 1
      omega
  · intro before k accepted after hlog
    obtain ⟨last, hlast⟩ := hexact.leaves before _ after hlog k rfl
    refine ⟨last, hlast, ?_⟩
    obtain ⟨hreach, -, hnew⟩ := (hlast last).2 rfl
    have hmem : last ∈ t.manager.log.builtKinds := (htrack.mem_built last).2 (hbuilt last hreach)
    rw [hlog] at hmem
    unfold Log.builtKinds at hmem hnew ⊢
    rw [List.filterMap_append, List.mem_append] at hmem
    exact hmem.resolve_left hnew

/-- What a manager and its client can rely on between calls. The degrees were `first` when the request
ended, and the manager was in the state `s₀` at the start. -/
structure ProtectionTracked (r : Registry K) (requested : List K) (first : K → Nat)
    (m : Manager K E S) (s₀ : S) (s : Session K (Traced K S)) : Prop where
  /-- Whenever a kind was to be built, each of its unprotected requirements had that kind as its last
  consumer, and was not asked for. -/
  reuse : s.manager.log.Always (Log.Reuses r requested)
  protected_iff : ∀ k, k ∈ s.run.protectedKinds ↔
    2 ≤ s.run.degrees.degree k ∨ (k ∈ requested ∧ 2 ≤ first k)
  /-- A manager that writes protections down has written down the protected kinds. -/
  recorded : ∀ held : S → K → Prop, m.Records held → (∀ k, ¬ held s₀ k) →
    ∀ k, held s.manager.inner k ↔ k ∈ s.run.protectedKinds
  /-- What was unprotected when the evaluation ends well. -/
  unprotects : ∀ schedule t, evaluate m.traced s = .ok schedule t →
    (∀ k, ⟨.compress k, false⟩ ∉ t.manager.log) →
      UnprotectsOnce r requested first t.manager.log

/-- After a first request that succeeds, and whatever the manager refuses from then on, storage is
reused only for the last consumer. -/
theorem protection_tracks_consumers {registry : Registry K} {requested : List K} {mode : Mode}
    {run : Run K} (hstart : Run.start registry requested mode = .ok run) {m : Manager K E S} {s₀ : S}
    {t : Session K (Traced K S)} (hrequest : request m.traced ⟨run, Traced.start s₀⟩ = .ok () t)
    (calls : List PhaseCall) :
    ProtectionTracked registry requested t.run.degrees.degree m s₀
      (serveAll m.traced calls t).2 := by
  obtain ⟨L⟩ := Registry.nonempty_layers_of_request (start_ok hstart).1
  have hfirst := tracked_of_request hstart hrequest
  obtain ⟨htracked, -⟩ := serveAll_keeps (m := m.traced)
    (fun u => Tracked registry requested t.run.degrees.degree m s₀ u) (fun _ => True)
    (fun call u hu => (hu.serve L call).mono (fun _ v hv => ⟨hv, trivial⟩)
      (fun _ v hv => ⟨hv, trivial⟩)) calls hfirst
  obtain ⟨slack, htrack⟩ := htracked.tracking
  constructor
  · exact htrack.reuse
  · intro k
    rw [htrack.guarded.protected_iff, htrack.mem_requested]
  · intro held hm hnone
    exact htrack.agrees _ hm.traced hnone
  · exact fun schedule v hevaluate hcompress => htracked.unprotects_once L hevaluate hcompress

/-- A diamond whose manager refuses the first attempt to build anything. The second attempt ends
well. -/
theorem protection_tracked_on_diamond :
    let hesitant : Manager Nat Unit Bool := .hesitant (·.action = .construct)
    ∃ run, Run.start Registry.diamond [3] .plain = .ok run ∧
      ∃ t, request hesitant.traced ⟨run, Traced.start true⟩ = .ok () t ∧
        ProtectionTracked Registry.diamond [3] t.run.degrees.degree hesitant true
          (serveAll hesitant.traced [.evaluate] t).2 ∧
        (serveAll hesitant.traced [.evaluate, .evaluate] t).1.map Except.isOk = [false, true] :=
  ⟨_, rfl, _, rfl, protection_tracks_consumers rfl rfl _, by decide +kernel⟩

end TextIndex.Run
