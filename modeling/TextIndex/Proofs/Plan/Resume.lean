import TextIndex.Proofs.Plan.Calls
import TextIndex.Proofs.Plan.Course
import TextIndex.Proofs.Plan.Drain

/-!
# Starting over after a refusal

An evaluation that is refused a construction stops and leaves everything as it stands. The next one
walks from the start again, but what has been built is passed over, and so it goes on where the last one
stopped. Whatever the number of attempts, they make up the course of a single evaluation that is
refused nothing.

The reason is that a refused construction leaves nothing to be done: it stops the evaluation between two
kinds, so the state is one that the course passes through (`Resumable.evaluate`). A refused
compression is different, for it stops the evaluation among the tasks of a kind.
-/

set_option autoImplicit false

namespace TextIndex.Run

variable {K E S : Type} [DecidableEq K]

/-! ## Evaluations in a row -/

/-- The session after `n` evaluations, whatever they returned. -/
def afterEvaluations (m : Manager K E S) (n : Nat) (s : Session K S) : Session K S :=
  (serveAll m (List.replicate n .evaluate) s).2

/-- A client whose evaluation succeeds is answered with the schedule. -/
theorem serve_evaluate_ok {m : Manager K E S} {s t : Session K S} {schedule : Schedule K}
    (h : evaluate m s = .ok schedule t) : serve m .evaluate s = .ok (some schedule) t :=
  bind_apply_eq_ok.2 ⟨_, _, h, rfl⟩

/-- A client whose evaluation fails is told why. -/
theorem serve_evaluate_error {m : Manager K E S} {s t : Session K S} {e : ScheduleError K E}
    (h : evaluate m s = .error e t) : serve m .evaluate s = .error e t := by
  show EStateM.bind (evaluate m) _ s = _
  unfold EStateM.bind
  rw [h]

/-- An evaluation that fails is one of those that are made in a row. -/
theorem afterEvaluations_succ {m : Manager K E S} {s t : Session K S} {e : ScheduleError K E}
    (h : evaluate m s = .error e t) (n : Nat) :
    afterEvaluations m (n + 1) s = afterEvaluations m n t :=
  afterCalls_succ (serve_evaluate_error h) n

/-- What holds after each evaluation up to one that succeeded holds after any number of them. -/
theorem afterEvaluations_always {m : Manager K E S} {s : Session K S} {P : Session K S → Prop}
    (last : Nat) (hend : (afterEvaluations m last s).run.phase = .evaluated)
    (hP : ∀ n ≤ last, P (afterEvaluations m n s)) (n : Nat) : P (afterEvaluations m n s) :=
  afterCalls_always last (serve_evaluate_error (evaluate_again hend)) hP n

/-! ## Where a refused construction leaves the run -/

/-- A session from which the course that began at `start` can be taken up again. -/
structure Resumable (r : Registry K) (requested : List K) (start : Draft K)
    (s : Session K (Traced K S)) : Prop where
  sound : Sound r requested s
  phase_eq : s.run.phase = .requested
  unbiased : s.run.Unbiased
  course : Course start (Stage.draft ⟨s, []⟩)

/-- Only constructions have been refused. -/
def OnlyConstructionsRefused (log : Log K) : Prop :=
  ∀ e ∈ log, e.accepted = false → e.event.action = .construct

instance (log : Log K) : Decidable (OnlyConstructionsRefused log) := by
  unfold OnlyConstructionsRefused
  infer_instance

/-- An evaluation that succeeds ends the course. One that fails has been refused something, and if that
was a construction the course can be taken up again. -/
theorem Resumable.evaluate {r : Registry K} (L : r.Layers) {requested : List K} {start : Draft K}
    {m : Manager K E S} {s : Session K (Traced K S)} (h : Resumable r requested start s) :
    Ends (Run.evaluate m.traced) s (fun schedule t => Arrives start schedule t)
      fun e t => (∃ k cause, e = .manager k cause) ∧
        s.manager.log.refusals < t.manager.log.refusals ∧
        (OnlyConstructionsRefused t.manager.log → Resumable r requested start t) := by
  refine ((evaluate_arrives L m h.phase_eq h.sound.registry_eq h.unbiased).and
    (h.sound.evaluate L)).mono ?_ ?_
  · rintro schedule t ⟨⟨u, hcourse, hend⟩, -⟩
    exact ⟨u, h.course.trans hcourse, hend⟩
  · rintro e t ⟨⟨c, hsteps, hstop⟩, hsound, hcounts⟩
    have hrefusals : s.manager.log.refusals ≤ c.session.manager.log.refusals :=
      (Steps.log_prefix hsteps).sublist.countP_le
    have hphase := hstop.keeps.2.2.trans (hsteps.phase_eq.trans h.phase_eq)
    have hcourse := h.course.trans (hsteps.course h.unbiased)
    have hunbiased := Unbiased.steps (c := ⟨s, []⟩) h.unbiased hsteps
    cases hstop with
    | @construct s' k top e t hready hm =>
      have hlog := Traced.log_of_ask_error hm
      refine ⟨⟨k, e, rfl⟩, ?_, fun _ => ⟨hsound, hphase, hunbiased, ?_⟩⟩
      · show _ < t.log.refusals
        simp only [hlog, Log.refusals, List.countP_append] at hrefusals ⊢
        exact Nat.lt_succ_of_le hrefusals
      · rwa [draft_of_refused hlog]
    | @settle s' k e t tasks halone hm =>
      have hlog := Traced.log_of_ask_error hm
      refine ⟨⟨k, e, rfl⟩, ?_, fun honly => ?_⟩
      · show _ < t.log.refusals
        simp only [hlog, Log.refusals, List.countP_append] at hrefusals ⊢
        exact Nat.lt_succ_of_le hrefusals
      · have hmem : ⟨.compress k, false⟩ ∈ t.log := by simp [hlog]
        cases honly _ hmem rfl
    | release => exact absurd rfl (hcounts _)

/-- With fewer than `budget` refusals to come, fewer than `budget` attempts fail before one succeeds. -/
theorem Resumable.resume {r : Registry K} (L : r.Layers) {requested : List K} {start : Draft K}
    {m : Manager K E S} (budget : Nat) : ∀ {s : Session K (Traced K S)},
      Resumable r requested start s →
      (∀ n, OnlyConstructionsRefused (afterEvaluations m.traced n s).manager.log) →
      (∀ n, (afterEvaluations m.traced n s).manager.log.refusals <
        s.manager.log.refusals + budget) →
      ∃ n < budget, ∃ failures schedule t,
        serveAll m.traced (List.replicate (n + 1) .evaluate) s =
          (failures ++ [.ok (some schedule)], t) ∧
        (∀ o ∈ failures, ∃ k cause, o = .error (.manager k cause)) ∧ Arrives start schedule t := by
  induction budget with
  | zero =>
    intro s h honly hfinite
    exact absurd (hfinite 0) (Nat.lt_irrefl _)
  | succ budget ih =>
    intro s h honly hfinite
    cases hevaluate : Run.evaluate m.traced s with
    | ok schedule t =>
      refine ⟨0, Nat.succ_pos _, [], schedule, t, ?_, by simp, (h.evaluate L).of_ok hevaluate⟩
      exact serveAll_cons_of_ok (serve_evaluate_ok hevaluate) []
    | error e t =>
      obtain ⟨hcause, hlt, hresumable⟩ := (h.evaluate L).of_error hevaluate
      have hnext : ∀ n, afterEvaluations m.traced (n + 1) s = afterEvaluations m.traced n t :=
        afterEvaluations_succ hevaluate
      have honly' : ∀ n, OnlyConstructionsRefused (afterEvaluations m.traced n t).manager.log :=
        fun n => hnext n ▸ honly (n + 1)
      obtain ⟨n, hn, failures, schedule, u, hserve, hfailures, harrives⟩ :=
        ih (hresumable (honly' 0)) honly' fun n => by
          have hle := hfinite (n + 1)
          rw [hnext] at hle
          omega
      refine ⟨n + 1, Nat.succ_lt_succ hn, .error e :: failures, schedule, u, ?_, ?_, harrives⟩
      · rw [List.replicate_succ, serveAll_cons_of_error (serve_evaluate_error hevaluate), hserve]
        rfl
      · intro o ho
        rcases List.mem_cons.1 ho with rfl | ho
        · obtain ⟨k, cause, rfl⟩ := hcause
          exact ⟨k, cause, rfl⟩
        · exact hfailures o ho

/-- What two evaluations have in common that ended alike. -/
structure EndsAlike {S' : Type} (schedule schedule' : Schedule K) (t : Session K (Traced K S))
    (t' : Session K (Traced K S')) : Prop where
  /-- The same kinds were built, released and compressed, each in the same order, and as many were
  there at once. -/
  schedule_eq : schedule' = schedule
  /-- The managers carried out the same calls in the same order. -/
  calls_eq : t'.manager.log.carriedOut = t.manager.log.carriedOut
  degrees_eq : t'.run.degrees = t.run.degrees
  protectedKinds_eq : t'.run.protectedKinds = t.run.protectedKinds
  constructedKinds_eq : t'.run.constructedKinds = t.run.constructedKinds

/-- Evaluations that end the same course end alike. -/
theorem Arrives.endsAlike {S' : Type} {start : Draft K} {schedule schedule' : Schedule K}
    {t : Session K (Traced K S)} {t' : Session K (Traced K S')} (h : Arrives start schedule t)
    (h' : Arrives start schedule' t') : EndsAlike schedule schedule' t t' := by
  obtain ⟨u, hcourse, hend, rfl, rfl⟩ := h
  obtain ⟨u', hcourse', hend', rfl, rfl⟩ := h'
  have heq : Stage.draft ⟨u', []⟩ = Stage.draft ⟨u, []⟩ := hcourse'.unique hcourse hend' hend
  exact {
    schedule_eq := congrArg (fun d : Draft K => d.session.run.schedule) heq
    calls_eq := congrArg (fun d : Draft K => d.session.manager) heq
    degrees_eq := congrArg (fun d : Draft K => d.session.run.degrees) heq
    protectedKinds_eq := congrArg (fun d : Draft K => d.session.run.protectedKinds) heq
    constructedKinds_eq := congrArg (fun d : Draft K => d.session.run.constructedKinds) heq }

/-- After a request that succeeds, the course begins where the session stands. -/
theorem resumable_of_request {registry : Registry K} {requested : List K} {mode : Mode}
    {run : Run K} (hstart : Run.start registry requested mode = .ok run) {m : Manager K E S}
    {s₀ : S} {t : Session K (Traced K S)}
    (hrequest : request m.traced ⟨run, Traced.start s₀⟩ = .ok () t) :
    Resumable registry requested (Stage.draft ⟨t, []⟩) t where
  sound := by
    obtain ⟨L⟩ := Registry.nonempty_layers_of_request (start_ok hstart).1
    exact ((sound_start hstart s₀).request L).of_ok hrequest
  phase_eq := by rw [request_run hstart hrequest]
  unbiased := unbiased_of_request hstart hrequest
  course := .refl

/-- A request and an evaluation that both succeed. -/
theorem run_completes_split {registry : Registry K} {requested : List K} {mode : Mode} {run : Run K}
    (hstart : Run.start registry requested mode = .ok run) {m : Manager K E S} {I : S → Prop}
    (hm : m.Willing I) {s : S} (hs : I s) :
    ∃ t schedule u, request m.traced ⟨run, Traced.start s⟩ = .ok () t ∧
      evaluate m.traced t = .ok schedule u := by
  obtain ⟨L⟩ := Registry.nonempty_layers_of_request (start_ok hstart).1
  obtain ⟨t, hrequest, hprimed, ht⟩ := request_primes hstart hm hs
  obtain ⟨schedule, u, hevaluate, -⟩ := (hprimed.evaluate L hm ht).exists_ok
  exact ⟨t, schedule, u, hrequest, hevaluate⟩

/-- After a first request that succeeds, let a manager refuse finitely many constructions and nothing
else. Evaluations in a row fail until one succeeds, and they end as a single evaluation does whose
manager refuses nothing. -/
theorem resuming_is_transparent {E' S' : Type} {registry : Registry K} {requested : List K}
    {mode : Mode} {run : Run K} (hstart : Run.start registry requested mode = .ok run)
    {m : Manager K E S} {s₀ : S} {t : Session K (Traced K S)}
    (hrequest : request m.traced ⟨run, Traced.start s₀⟩ = .ok () t)
    (honly : ∀ n, OnlyConstructionsRefused (afterEvaluations m.traced n t).manager.log)
    {bound : Nat} (hfinite : ∀ n, (afterEvaluations m.traced n t).manager.log.refusals ≤ bound)
    {m' : Manager K E' S'} {I : S' → Prop} (hm' : m'.Willing I) {s₀' : S'} (hs' : I s₀') :
    ∃ n ≤ bound, ∃ failures schedule u,
      serveAll m.traced (List.replicate (n + 1) .evaluate) t =
        (failures ++ [.ok (some schedule)], u) ∧
      (∀ o ∈ failures, ∃ k cause, o = .error (.manager k cause)) ∧
      ∃ t' schedule' u', request m'.traced ⟨run, Traced.start s₀'⟩ = .ok () t' ∧
        evaluate m'.traced t' = .ok schedule' u' ∧ EndsAlike schedule schedule' u u' := by
  obtain ⟨L⟩ := Registry.nonempty_layers_of_request (start_ok hstart).1
  have hbegin := resumable_of_request hstart hrequest
  obtain ⟨n, hn, failures, schedule, u, hserve, hfailures, harrives⟩ :=
    hbegin.resume L (bound + 1) honly fun n => by
      have hle := hfinite n
      omega
  obtain ⟨t', schedule', u', hrequest', hevaluate'⟩ := run_completes_split hstart hm' hs'
  refine ⟨n, Nat.le_of_lt_succ hn, failures, schedule, u, hserve, hfailures, t', schedule', u',
    hrequest', hevaluate', ?_⟩
  have harrives' := ((resumable_of_request hstart hrequest').evaluate L).of_ok hevaluate'
  have hdraft : Stage.draft ⟨t', []⟩ = Stage.draft ⟨t, []⟩ := by
    have hmode : t.run.mode = mode := by
      rw [request_run hstart hrequest]
      obtain ⟨-, rfl⟩ := start_ok hstart
      rfl
    rw [draft_of_requests hstart hstart hrequest hrequest', ← hmode]
    rfl
  rw [hdraft] at harrives'
  exact harrives.endsAlike harrives'

/-- A diamond whose manager refuses the first attempt to build anything: the first evaluation fails, the
second one succeeds, and it ends as that of a recorder does. -/
theorem resuming_is_transparent_on_diamond :
    let hesitant : Manager Nat Unit Bool := .hesitant (·.action = .construct)
    ∃ run, Run.start Registry.diamond [3, 0] .delayed = .ok run ∧
      ∃ t, request hesitant.traced ⟨run, Traced.start true⟩ = .ok () t ∧
        (serveAll hesitant.traced [.evaluate, .evaluate] t).1.map Except.isOk = [false, true] ∧
        ∃ n ≤ 1, ∃ failures schedule u,
          serveAll hesitant.traced (List.replicate (n + 1) .evaluate) t =
            (failures ++ [.ok (some schedule)], u) ∧
          (∀ o ∈ failures, ∃ k cause, o = .error (.manager k cause)) ∧
          ∃ t' schedule' u', request Recorder.manager.traced
              ⟨run, Traced.start (.new none)⟩ = .ok () t' ∧
            evaluate Recorder.manager.traced t' = .ok schedule' u' ∧
            EndsAlike schedule schedule' u u' :=
  have hstart : Run.start Registry.diamond [3, 0] .delayed = .ok _ := rfl
  ⟨_, hstart, _, rfl, by decide +kernel, resuming_is_transparent hstart
    (show request _ ⟨_, Traced.start true⟩ = _ from rfl)
    (afterEvaluations_always
      (P := fun u : Session Nat (Traced Nat Bool) => OnlyConstructionsRefused u.manager.log)
      2 (by decide +kernel) (by decide +kernel))
    (afterEvaluations_always
      (P := fun u : Session Nat (Traced Nat Bool) => u.manager.log.refusals ≤ 1)
      2 (by decide +kernel) (by decide +kernel))
    Recorder.willing rfl⟩

end TextIndex.Run
