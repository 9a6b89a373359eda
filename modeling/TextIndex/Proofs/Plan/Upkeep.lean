import TextIndex.Proofs.Plan.Balance
import TextIndex.Proofs.Plan.Client

/-!
# What holds between the calls of a client

A client calls the phases in any order and as often as it likes, and a phase may stop at any call that
the manager refuses. What is to be shown of all sessions that arise in this way has to be shown of
single steps only (`Upholds`), and then holds after any calls (`kept_serveAll`).

The counts are what makes this work. While kinds are counted nothing has been built, and from then on
the degrees are in balance with what is still to come, so a step of the evaluation may be looked at
under the assumption that they are (`Kept`).
-/

set_option autoImplicit false

namespace TextIndex.Run

variable {K E S : Type} [DecidableEq K]

/-! ## The start of a run -/

/-- A kind that is looked for is reachable from the request. -/
theorem Wanted.reachable {r : Run K} {k : K} {top : Bool} (h : r.Wanted k top) :
    r.registry.Reachable r.requestedKinds.toList k := by
  cases top with
  | true => exact Registry.reachable_of_mem h
  | false =>
    obtain ⟨j, -, hj, hk⟩ := h
    exact hj.needs hk

/-- A run is started from a request that passed the check, with nothing done. -/
theorem start_ok {registry : Registry K} {requested : List K} {mode : Mode} {run : Run K}
    (h : Run.start registry requested mode = .ok run) :
    registry.validateRequest requested = .ok () ∧
      run = {
        costs := .new registry
        requestedKinds := .ofList requested
        mode
        degrees := .empty
        protectedKinds := .empty
        constructedKinds := .empty
        compressedKinds := .empty
        schedule := .empty
        live := .zero
        phase := .fresh } := by
  obtain ⟨u, hu, hrun⟩ := bind_eq_ok.1 h
  injection hrun with hrun
  exact ⟨hu, hrun.symm⟩

/-- The counts of a run that has just been started. -/
theorem counted_start {registry : Registry K} {requested : List K} {mode : Mode} {run : Run K}
    (h : Run.start registry requested mode = .ok run) : run.Counted fun _ => 0 := by
  obtain ⟨-, rfl⟩ := start_ok h
  exact ⟨rfl, fun x => rfl, fun x hx => absurd hx (DegreeMap.not_contains_empty x)⟩

/-! ## Single steps -/

variable {r : Registry K} {requested : List K} {m : Manager K E S} {P : Session K S → Prop}

/-- Whatever a run does with this manager, `P` goes on to hold. -/
structure Upholds (m : Manager K E S) (P : Session K S → Prop) : Prop where
  requestStep : ∀ {s t : Session K S}, RequestStep m s t → s.run.constructedKinds = .empty →
    P s → P t
  requested : ∀ {s : Session K S}, s.run.phase = .fresh → P s →
    P { s with run := { s.run with phase := .requested } }
  step : ∀ {slack : K → Nat} {c c' : Stage K S}, Balance slack c → Step m c c' →
    P c.session → P c'.session
  /-- A step that fails stops the phase, and the session stays as the step leaves it. -/
  stop : ∀ {slack : K → Nat} {c : Stage K S} {e : ScheduleError K E} {t : Session K S},
    Balance slack c → Stop m c e t → P c.session → P t
  evaluated : ∀ {s : Session K S}, P s →
    P { s with run := { s.run with phase := .evaluated, schedule := .empty } }

namespace Upholds

variable (hP : Upholds m P)

include hP

/-- What each step of a request keeps is kept by a request. -/
theorem requestSteps {s t : Session K S} (hsteps : RequestSteps m s t)
    (hempty : s.run.constructedKinds = .empty) (hs : P s) : P t := by
  induction hsteps with
  | refl => exact hs
  | tail hsteps hstep ih =>
    refine hP.requestStep hstep ?_ ih
    rw [RequestSteps.run_eq hsteps]
    exact hempty

/-- What each step of an evaluation keeps is kept by an evaluation. -/
theorem steps {slack : K → Nat} {c c' : Stage K S} (hbalance : Balance slack c)
    (hsteps : Steps m c c') (hc : P c.session) : P c'.session := by
  induction hsteps with
  | refl => exact hc
  | tail hsteps hstep ih => exact hP.step (hbalance.steps hsteps) hstep ih

end Upholds

/-! ## Every call of a client -/

/-- What holds of a session between any two calls of its client: the counts are right, and so is
`P`. -/
structure Kept (r : Registry K) (requested : List K) (P : Session K S → Prop) (s : Session K S) :
    Prop where
  registry_eq : s.run.registry = r
  requested_eq : s.run.requestedKinds = .ofList requested
  /-- Until the request phase is over kinds are only counted. -/
  counted : s.run.phase = .fresh → (∃ extra, s.run.Counted extra) ∧ s.run.live = .zero
  /-- From then on the counts are in balance. -/
  balanced : s.run.phase ≠ .fresh → ∃ slack, Balance slack ⟨s, []⟩
  upheld : P s

/-- What holds where a run starts is kept so far. -/
theorem kept_start {registry : Registry K} {mode : Mode} {run : Run K}
    (h : Run.start registry requested mode = .ok run) {s : S} (hs : P ⟨run, s⟩) :
    Kept registry requested P ⟨run, s⟩ := by
  have hcounted := counted_start h
  obtain ⟨-, rfl⟩ := start_ok h
  exact ⟨rfl, rfl, fun _ => ⟨⟨_, hcounted⟩, rfl⟩, fun hphase => absurd rfl hphase, hs⟩

/-- The requested kinds are those that the client listed. -/
theorem Kept.mem_requestedKinds {s : Session K S} (h : Kept r requested P s) (k : K) :
    k ∈ s.run.requestedKinds.toList ↔ k ∈ requested := by
  rw [← KindSet.mem_def, h.requested_eq, KindSet.mem_ofList]

/-- A request keeps it, and the only failures it knows are the manager's and that of being called
again. -/
theorem Kept.request (L : r.Layers) (hP : Upholds m P) {s : Session K S}
    (h : Kept r requested P s) :
    Ends (Run.request m) s (fun _ t => Kept r requested P t)
      fun e t => Kept r requested P t ∧ ∀ cause, e ≠ .invariant cause := by
  by_cases hphase : s.run.phase = .fresh
  · obtain ⟨⟨extra, hcounted⟩, hlive⟩ := h.counted hphase
    refine (request_counts L m hphase h.registry_eq hcounted).mono ?_ ?_
    · rintro - t ⟨u, hsteps, hu, -, rfl⟩
      have hrun := RequestSteps.run_eq hsteps
      have hreq : u.run.requestedKinds = s.run.requestedKinds := by rw [hrun]
      have hfresh : u.run.phase = .fresh := by rw [hrun]; exact hphase
      have hbalance : Balance extra ⟨u, []⟩ :=
        Counted.balance (by rwa [hreq]) (by rw [hrun]; exact hlive)
      exact {
        registry_eq := (RequestSteps.registry_eq hsteps).trans h.registry_eq
        requested_eq := hreq.trans h.requested_eq
        counted := fun hp => by cases hp
        balanced := fun _ => ⟨extra, hbalance.frame rfl rfl rfl rfl rfl fun _ => rfl⟩
        upheld := hP.requested hfresh (hP.requestSteps hsteps hcounted.unbuilt h.upheld) }
    · rintro e t ⟨hsteps, ⟨hcounted', -⟩, u, k, cause, -, rfl, -⟩
      have hrun := RequestSteps.run_eq hsteps
      refine ⟨{
        registry_eq := (RequestSteps.registry_eq hsteps).trans h.registry_eq
        requested_eq := by rw [hrun]; exact h.requested_eq
        counted := fun _ => ⟨hcounted', by rw [hrun]; exact hlive⟩
        balanced := fun hp => absurd (by rw [hrun]; exact hphase) hp
        upheld := hP.requestSteps hsteps hcounted.unbuilt h.upheld }, by simp⟩
  · exact ends_of_error (request_again hphase) ⟨h, by simp⟩

/-- An evaluation keeps it, and never fails because of the counts. -/
theorem Kept.evaluate (L : r.Layers) (hP : Upholds m P) {s : Session K S}
    (h : Kept r requested P s) :
    Ends (Run.evaluate m) s (fun _ t => Kept r requested P t)
      fun e t => Kept r requested P t ∧ ∀ cause, e ≠ .invariant cause := by
  cases hphase : s.run.phase with
  | fresh => exact ends_of_error (evaluate_fresh hphase) ⟨h, by simp⟩
  | evaluated => exact ends_of_error (evaluate_again hphase) ⟨h, by simp⟩
  | requested =>
    obtain ⟨slack, hbalance⟩ := h.balanced (by simp [hphase])
    refine (evaluate_follows L m hphase h.registry_eq).mono ?_ ?_
    · rintro schedule t ⟨u, hsteps, -, -, rfl⟩
      exact {
        registry_eq := (Steps.registry_eq hsteps).trans h.registry_eq
        requested_eq := (Steps.requestedKinds_eq hsteps).trans h.requested_eq
        counted := fun hp => by cases hp
        balanced := fun _ =>
          ⟨slack, (hbalance.steps hsteps).frame rfl rfl rfl rfl rfl fun _ => rfl⟩
        upheld := hP.evaluated (hP.steps (c := ⟨s, []⟩) hbalance hsteps h.upheld) }
    · rintro e t ⟨c, hsteps, hstop⟩
      -- the releases that were due when the step failed are slack from now on
      have hbalance' := hbalance.steps hsteps
      obtain ⟨hstopped, k, cause, rfl⟩ := hbalance'.stop hstop
      obtain ⟨hregistry, hrequested, hphase'⟩ := hstop.keeps
      have hlater : t.run.phase = .requested := hphase'.trans (hsteps.phase_eq.trans hphase)
      refine ⟨{
        registry_eq := hregistry.trans ((Steps.registry_eq hsteps).trans h.registry_eq)
        requested_eq := hrequested.trans ((Steps.requestedKinds_eq hsteps).trans h.requested_eq)
        counted := fun hp => absurd (hlater.symm.trans hp) (by simp)
        balanced := fun _ => hstopped
        upheld := hP.stop hbalance' hstop (hP.steps (c := ⟨s, []⟩) hbalance hsteps h.upheld) },
        by simp⟩

/-- Every call of a client keeps it, and none fails because of the counts. -/
theorem Kept.serve (L : r.Layers) (hP : Upholds m P) {s : Session K S}
    (h : Kept r requested P s) (call : PhaseCall) :
    Ends (Run.serve m call) s (fun _ t => Kept r requested P t)
      fun e t => Kept r requested P t ∧ ∀ cause, e ≠ .invariant cause := by
  cases call with
  | request =>
    unfold Run.serve
    rw [ends_bind]
    exact (h.request L hP).mono (fun _ t ht => ht) (fun _ _ hF => hF)
  | evaluate =>
    unfold Run.serve
    rw [ends_bind]
    exact (h.evaluate L hP).mono (fun _ t ht => ht) (fun _ _ hF => hF)

/-- What a run upholds holds after any calls, and none of them fails because of the counts. -/
theorem kept_serveAll {registry : Registry K} {mode : Mode} {run : Run K}
    (hstart : Run.start registry requested mode = .ok run) (hP : Upholds m P) {s : S}
    (hs : P ⟨run, s⟩) (calls : List PhaseCall) :
    Kept registry requested P (serveAll m calls ⟨run, s⟩).2 ∧
      ∀ o ∈ (serveAll m calls ⟨run, s⟩).1, ∀ cause, o ≠ .error (.invariant cause) := by
  obtain ⟨L⟩ := Registry.nonempty_layers_of_request (start_ok hstart).1
  exact serveAll_keeps (Kept registry requested P) (fun o => ∀ cause, o ≠ .error (.invariant cause))
    (fun call t ht => (ht.serve L hP call).mono (fun _ u hu => ⟨hu, by simp⟩)
      (fun e u hu => ⟨hu.1, fun cause heq => hu.2 cause (by injection heq)⟩))
    calls (kept_start hstart hs)

/-- An evaluation that succeeds goes through single steps from where the calls before it have led, and
`P` holds when the last kind has been built. -/
theorem Kept.evaluate_ok (L : r.Layers) (hP : Upholds m P) {s t : Session K S}
    {schedule : Schedule K} (h : Kept r requested P s) (heval : Run.evaluate m s = .ok schedule t) :
    s.run.phase = .requested ∧ ∃ u, Steps m ⟨s, []⟩ ⟨u, []⟩ ∧ P u ∧
      (∀ k ∈ s.run.requestedKinds, k ∈ u.run.constructedKinds) ∧ schedule = u.run.schedule ∧
      t = { u with run := { u.run with phase := .evaluated, schedule := .empty } } := by
  cases hphase : s.run.phase with
  | fresh => cases (evaluate_fresh hphase).symm.trans heval
  | evaluated => cases (evaluate_again hphase).symm.trans heval
  | requested =>
    obtain ⟨slack, hbalance⟩ := h.balanced (by simp [hphase])
    obtain ⟨u, hsteps, hbuilt, hschedule, ht⟩ :=
      (evaluate_follows L m hphase h.registry_eq).of_ok heval
    exact ⟨rfl, u, hsteps, hP.steps (c := ⟨s, []⟩) hbalance hsteps h.upheld, hbuilt, hschedule, ht⟩

end TextIndex.Run
