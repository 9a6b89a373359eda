import TextIndex.Proofs.Plan.Compression
import TextIndex.Proofs.Plan.Resume

/-!
# What a successful evaluation promises

An evaluation that succeeds promises that every requested kind is there, that all the others have been
released, and in delayed mode that every requested kind has been compressed. The first holds whatever
the manager refused in earlier attempts. The other two hold exactly when no compression was refused
(`promise_kept_iff`).

The evaluation notes down that it has asked for a compression before it asks, so it does not ask
again; and a refusal stops it among the releases of a kind that counts as built from then on, so
those that were still due are never made up for.
-/

set_option autoImplicit false

namespace TextIndex.Run

variable {K E S : Type} [DecidableEq K]

/-- What an evaluation promises when it succeeds. -/
structure PromiseKept (r : Registry K) (requested : List K) (mode : Mode) (log : Log K) : Prop where
  /-- Every requested kind is there. -/
  live : ∀ k ∈ requested, log.Holds k
  /-- All kinds that these lead to were built. -/
  built : ∀ k, r.Reachable requested k → k ∈ log.builtKinds
  /-- What was not requested was released after it last appeared. -/
  drained : ∀ k, k ∉ requested → log.Drained r k
  /-- In delayed mode every requested kind was compressed. -/
  compressed : mode = .delayed → ∀ k ∈ requested, ⟨.compress k, true⟩ ∈ log

section

variable {r : Registry K} {requested : List K} {mode : Mode} {first : K → Nat}
  {m : Manager K E S} {s₀ : S} {slack : K → Nat}

/-! ## What an evaluation that fails leaves behind -/

/-- A refused compression has been asked for as well. -/
theorem Compressed.stop {c : Stage K (Traced K S)} (h : Compressed c.session)
    (hcaused : Caused r requested c) {e : ScheduleError K E} {t : Session K (Traced K S)}
    (hstop : Stop m.traced c e t) : Compressed t := by
  cases hstop with
  | @settle s k e t tasks halone hm =>
    have hmode := (hcaused.settled k (List.mem_cons_self ..)).1
    exact h.ask hmode halone (Traced.log_of_ask_error hm) s.run.schedule
  | construct _ hm =>
    exact h.keep (Or.inr ⟨_, by simp, Traced.log_of_ask_error hm⟩) rfl rfl rfl
  | release _ => exact h

/-- If it was not a compression that was refused, nothing has been left behind. -/
theorem Draining.stop {c : Stage K (Traced K S)} (h : Draining c) (hpending : Pending c)
    (hbalance : Balance slack c) {e : ScheduleError K E} {t : Session K (Traced K S)}
    (hstop : Stop m.traced c e t) (hunrefused : ∀ k, ⟨.compress k, false⟩ ∉ t.manager.log) :
    Draining ⟨t, []⟩ ∧ Pending ⟨t, []⟩ := by
  cases hstop with
  | construct _ hm =>
    exact ⟨h.keep rfl rfl (Or.inr ⟨_, rfl, Traced.log_of_ask_error hm⟩) fun _ hx => Or.inr hx,
      hpending⟩
  | @settle s k e t tasks _ hm =>
    refine absurd ?_ (hunrefused k)
    show _ ∈ t.log
    rw [Traced.log_of_ask_error hm]
    exact List.mem_append_right _ (List.mem_singleton_self _)
  | release hdeg => exact absurd hdeg (Nat.ne_of_gt hbalance.release_pos)

/-- Steps ask to compress a kind once at most, and only after what caused it. -/
theorem Compressed.steps {c c' : Stage K (Traced K S)} (h : Compressed c.session)
    (hcaused : Caused r requested c) (htrack : Tracking r requested first m s₀ slack c)
    (hsteps : Steps m.traced c c') : Compressed c'.session ∧ Caused r requested c' := by
  induction hsteps with
  | refl => exact ⟨h, hcaused⟩
  | tail hsteps hstep ih =>
    exact ⟨ih.1.step ih.2 hstep, ih.2.step (htrack.steps hsteps) hstep⟩

/-- Steps leave to be settled what is alone with its client. -/
theorem Pending.steps {c c' : Stage K S} {m : Manager K E S} (h : Pending c)
    (hbalance : Balance slack c) (hsteps : Steps m c c') : Pending c' := by
  induction hsteps with
  | refl => exact h
  | tail hsteps hstep ih => exact ih.step (hbalance.steps hsteps) hstep

/-- What holds between any two calls of a client, once a first request has succeeded. -/
structure Promising (r : Registry K) (requested : List K) (mode : Mode) (first : K → Nat)
    (m : Manager K E S) (s₀ : S) (s : Session K (Traced K S)) : Prop where
  tracked : Tracked r requested first m s₀ s
  mode_eq : s.run.mode = mode
  compressed : Compressed s
  unrefused : (∀ k, ⟨.compress k, false⟩ ∉ s.manager.log) → Draining ⟨s, []⟩ ∧ Pending ⟨s, []⟩

/-- An evaluation keeps what was promised, also if it fails. -/
theorem Promising.evaluate (L : r.Layers) {s : Session K (Traced K S)}
    (h : Promising r requested mode first m s₀ s) :
    Ends (Run.evaluate m.traced) s (fun _ t => Promising r requested mode first m s₀ t)
      fun _ t => Promising r requested mode first m s₀ t := by
  obtain ⟨slack, htrack⟩ := h.tracked.tracking
  have hcaused : Caused r requested ⟨s, []⟩ := ⟨by simp, by simp⟩
  cases hphase : s.run.phase with
  | fresh => exact absurd hphase h.tracked.begun
  | evaluated => exact ends_of_error (evaluate_again hphase) h
  | requested =>
    refine ((evaluate_follows L m.traced hphase htrack.registry_eq).and
      (h.tracked.evaluate L)).mono ?_ ?_
    · rintro schedule t ⟨⟨u, hsteps, -, -, rfl⟩, htracked⟩
      obtain ⟨hcompressed, -⟩ := Compressed.steps h.compressed hcaused htrack hsteps
      refine ⟨htracked, (Steps.mode_eq hsteps).trans h.mode_eq,
        ⟨hcompressed.requested, hcompressed.received⟩, fun hunrefused => ?_⟩
      obtain ⟨hdraining, hpending⟩ := h.unrefused fun k hk =>
        hunrefused k (hsteps.log_prefix.subset hk)
      have hdraining' := hdraining.steps htrack.balance hsteps
      have hpending' := Pending.steps hpending htrack.balance hsteps
      exact ⟨hdraining', hpending'⟩
    · rintro e t ⟨⟨c, hsteps, hstop⟩, htracked⟩
      obtain ⟨hcompressed, hcaused'⟩ := Compressed.steps h.compressed hcaused htrack hsteps
      refine ⟨htracked, (hstop.mode_eq.trans (Steps.mode_eq hsteps)).trans h.mode_eq,
        hcompressed.stop hcaused' hstop, fun hunrefused => ?_⟩
      obtain ⟨hdraining, hpending⟩ := h.unrefused fun k hk =>
        hunrefused k (hstop.log_prefix.subset (hsteps.log_prefix.subset hk))
      have hdraining' := hdraining.steps htrack.balance hsteps
      have hpending' := Pending.steps hpending htrack.balance hsteps
      exact hdraining'.stop hpending' (htrack.balance.steps hsteps) hstop hunrefused

/-- Each call of a client keeps what was promised, also if it fails. -/
theorem Promising.serve (L : r.Layers) {s : Session K (Traced K S)}
    (h : Promising r requested mode first m s₀ s) (call : PhaseCall) :
    Ends (Run.serve m.traced call) s (fun _ t => Promising r requested mode first m s₀ t)
      fun _ t => Promising r requested mode first m s₀ t := by
  cases call with
  | request =>
    unfold Run.serve
    rw [ends_bind]
    exact ends_of_error (request_again h.tracked.begun) h
  | evaluate =>
    unfold Run.serve
    rw [ends_bind]
    exact (h.evaluate L).mono (fun _ t ht => ht) (fun _ _ hF => hF)

end

/-- A first request that succeeds has left nothing behind. -/
theorem promising_of_request {registry : Registry K} {requested : List K} {mode : Mode}
    {run : Run K} (hstart : Run.start registry requested mode = .ok run) {m : Manager K E S}
    {s₀ : S} {t : Session K (Traced K S)}
    (hrequest : request m.traced ⟨run, Traced.start s₀⟩ = .ok () t) :
    Promising registry requested mode t.run.degrees.degree m s₀ t := by
  have htracked := tracked_of_request hstart hrequest
  obtain ⟨slack, htrack⟩ := htracked.tracking
  obtain ⟨hmode, hsettling⟩ := settling_of_request hstart hrequest
  obtain ⟨u, -, hcounted, -, rfl⟩ := request_ok hstart hrequest
  refine ⟨htracked, hmode, hsettling.compressed, fun _ => ⟨fun x _ => Or.inl ?_, hsettling.pending⟩⟩
  apply Log.drained_of_builtKinds
  have hbuilt : Log.builtKinds u.manager.log = u.run.constructedKinds.toList := htrack.safe.built
  show Log.builtKinds u.manager.log = []
  rw [hbuilt, hcounted.unbuilt]
  rfl

/-! ## The promise -/

section

variable {r : Registry K} {requested : List K} {mode : Mode} {first : K → Nat}
  {m : Manager K E S} {s₀ : S} {s t : Session K (Traced K S)} {schedule : Schedule K}

/-- The requested kinds are there, whatever was refused before. -/
theorem Promising.live (L : r.Layers) (h : Promising r requested mode first m s₀ s)
    (hevaluate : Run.evaluate m.traced s = .ok schedule t) :
    ∀ k ∈ requested, t.manager.log.Holds k := by
  intro k hk
  obtain ⟨slack, htrack⟩ := ((h.evaluate L).of_ok hevaluate).tracked.tracking
  apply htrack.safe.held k (h.tracked.built_of_evaluate L hevaluate (Registry.reachable_of_mem hk))
  exact htrack.balance.requested_pos ((htrack.mem_requested k).2 hk)

/-- If no compression was refused the promise is kept. -/
theorem Promising.kept (L : r.Layers) (h : Promising r requested mode first m s₀ s)
    (hevaluate : Run.evaluate m.traced s = .ok schedule t)
    (hunrefused : ∀ k, ⟨.compress k, false⟩ ∉ t.manager.log) :
    PromiseKept r requested mode t.manager.log := by
  have hend := (h.evaluate L).of_ok hevaluate
  obtain ⟨slack, htrack⟩ := hend.tracked.tracking
  obtain ⟨hdraining, hpending⟩ := hend.unrefused hunrefused
  have hbuilt : ∀ y, r.Reachable requested y → y ∈ t.run.constructedKinds :=
    fun y hy => h.tracked.built_of_evaluate L hevaluate hy
  -- all consumers have been built and released, so only the client is left
  have hdegree : ∀ k, t.run.degrees.degree k = if k ∈ t.run.requestedKinds then 1 else 0 :=
    (hend.tracked.exact_of_compressed hunrefused).balance.degree_of_built
      fun y hy => hbuilt y ((htrack.contains_iff y).1 hy)
  refine ⟨h.live L hevaluate, fun k hk => (htrack.mem_built k).2 (hbuilt k hk), ?_, ?_⟩
  · intro x hx
    have hx' : x ∉ t.run.requestedKinds := fun hmem => hx ((htrack.mem_requested x).1 hmem)
    rcases hdraining x hx' with hdrained | hdue | hpos
    · rwa [← show t.run.registry = r from htrack.registry_eq]
    · exact absurd hdue List.not_mem_nil
    · have hzero := hdegree x
      rw [if_neg hx'] at hzero
      exact absurd hzero (Nat.ne_of_gt hpos)
  · intro hdelayed k hk
    have hk' : k ∈ t.run.requestedKinds := (htrack.mem_requested k).2 hk
    have hone := hdegree k
    rw [if_pos hk'] at hone
    have hasked : k ∈ t.run.compressedKinds := by
      by_contra hnew
      have hdue := hpending (hend.mode_eq.trans hdelayed) k
        (hbuilt k (Registry.reachable_of_mem hk)) ⟨hk', hone, hnew⟩
      exact absurd hdue List.not_mem_nil
    have hreceived := hend.compressed.received k
    rw [if_pos hasked] at hreceived
    obtain ⟨⟨event, accepted⟩, hmem, hevent⟩ := List.countP_pos_iff.1
      (show 0 < t.manager.log.received (.compress k) by omega)
    obtain rfl : event = .compress k := by simpa using hevent
    cases accepted with
    | true => exact hmem
    | false => exact absurd hmem (hunrefused k)

/-- A refused compression is not made up for. -/
theorem Promising.refused (L : r.Layers) (h : Promising r requested mode first m s₀ s)
    (hevaluate : Run.evaluate m.traced s = .ok schedule t) {k : K}
    (hrefused : ⟨.compress k, false⟩ ∈ t.manager.log) :
    ¬ PromiseKept r requested mode t.manager.log := by
  intro hkept
  have hend := (h.evaluate L).of_ok hevaluate
  obtain ⟨slack, htrack⟩ := hend.tracked.tracking
  have hreceived := hend.compressed.received k
  have hasked : k ∈ t.run.compressedKinds := by
    by_contra hnew
    rw [if_neg hnew] at hreceived
    have hpos : 0 < t.manager.log.received (.compress k) :=
      List.countP_pos_iff.2 ⟨_, hrefused, by simp⟩
    omega
  rw [if_pos hasked] at hreceived
  obtain ⟨hdelayed, hk⟩ := hend.compressed.requested k hasked
  have hdone := hkept.compressed (hend.mode_eq.symm.trans hdelayed) k ((htrack.mem_requested k).1 hk)
  -- the kind was asked for once, so that one call was not refused
  have heq := eq_of_countP_le_one (Nat.le_of_eq hreceived) hrefused (by simp) hdone (by simp)
  cases heq

end

/-- Whatever the manager refused in earlier attempts, an evaluation that succeeds leaves every requested
kind there. It keeps all of its promise if no compression was refused, and only then. -/
theorem promise_kept_iff {registry : Registry K} {requested : List K} {mode : Mode} {run : Run K}
    (hstart : Run.start registry requested mode = .ok run) {m : Manager K E S} {s₀ : S}
    {t : Session K (Traced K S)}
    (hrequest : request m.traced ⟨run, Traced.start s₀⟩ = .ok () t) (calls : List PhaseCall)
    {schedule : Schedule K} {u : Session K (Traced K S)}
    (hevaluate : evaluate m.traced (serveAll m.traced calls t).2 = .ok schedule u) :
    (∀ k ∈ requested, u.manager.log.Holds k) ∧
      (PromiseKept registry requested mode u.manager.log ↔
        ∀ k, ⟨.compress k, false⟩ ∉ u.manager.log) := by
  obtain ⟨L⟩ := Registry.nonempty_layers_of_request (start_ok hstart).1
  obtain ⟨hpromising, -⟩ := serveAll_keeps (m := m.traced)
    (fun v => Promising registry requested mode t.run.degrees.degree m s₀ v) (fun _ => True)
    (fun call v hv => (hv.serve L call).mono (fun _ w hw => ⟨hw, trivial⟩)
      (fun _ w hw => ⟨hw, trivial⟩)) calls (promising_of_request hstart hrequest)
  refine ⟨hpromising.live L hevaluate, fun hkept k hk => ?_, hpromising.kept L hevaluate⟩
  exact hpromising.refused L hevaluate hk hkept

/-- A diamond whose manager refuses the first attempt to build anything. The second evaluation keeps its
promise. -/
theorem promise_kept_on_diamond :
    let hesitant : Manager Nat Unit Bool := .hesitant (·.action = .construct)
    ∃ run, Run.start Registry.diamond [3, 0] .delayed = .ok run ∧
      ∃ t, request hesitant.traced ⟨run, Traced.start true⟩ = .ok () t ∧
        (serveAll hesitant.traced [.evaluate] t).1.map Except.isOk = [false] ∧
        ∃ schedule u, evaluate hesitant.traced (serveAll hesitant.traced [.evaluate] t).2 =
            .ok schedule u ∧
          (∀ k ∈ [3, 0], u.manager.log.Holds k) ∧
          (PromiseKept Registry.diamond [3, 0] .delayed u.manager.log ↔
            ∀ k, ⟨.compress k, false⟩ ∉ u.manager.log) :=
  have hstart : Run.start Registry.diamond [3, 0] .delayed = .ok _ := rfl
  have ⟨schedule, u, hevaluate⟩ := exists_of_isOk (by decide +kernel)
  ⟨_, hstart, _, rfl, by decide +kernel, schedule, u, hevaluate,
    promise_kept_iff hstart (show request _ ⟨_, Traced.start true⟩ = _ from rfl) [.evaluate] hevaluate⟩

/-- A kind is built from two others, and the client asks for one of these as well. Its compression is
refused when it is released. The second attempt then succeeds at once: the kind stays as it is, and the
other one, which nobody needs any more, is not released. -/
theorem promise_broken_by_refused_compression :
    let reluctant : Manager Nat Unit Bool := .hesitant (·.action = .compress)
    ∃ run, Run.start Registry.joint [2, 0] .delayed = .ok run ∧
      ∃ t, request reluctant.traced ⟨run, Traced.start true⟩ = .ok () t ∧
        let after := serveAll reluctant.traced [.evaluate, .evaluate] t
        after.1.map Except.isOk = [false, true] ∧
          ⟨.compress 0, true⟩ ∉ after.2.manager.log ∧
          (∀ e ∈ after.2.manager.log, e.event.action ≠ .discard) ∧
          ¬ PromiseKept Registry.joint [2, 0] .delayed after.2.manager.log :=
  ⟨_, rfl, _, rfl, by decide +kernel, by decide +kernel, by decide +kernel,
    fun h => absurd (h.compressed rfl 0 (by decide)) (by decide +kernel)⟩

end TextIndex.Run
