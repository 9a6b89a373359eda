import TextIndex.Proofs.Plan.Trace
import TextIndex.Proofs.Plan.Upkeep

/-!
# Safety of the planner

Whatever calls a manager refuses, and however often the phases are started again, a run never asks
for something impossible: it builds a kind only when all requirements are there, never builds one
twice, never releases what the client asked for, and never counts below zero.

The log of the manager is tied to the run by `Safe`: a built kind that still has a consumer is
there. The balance of the counts supplies the consumers: a requirement of a kind that is about to be
built has that kind as a consumer, and a requested kind has the client.
-/

set_option autoImplicit false

namespace TextIndex.Run

variable {K E S : Type} [DecidableEq K]

/-- The log of the manager fits the state of the run. -/
structure Safe (s : Session K (Traced K S)) : Prop where
  /-- Built kinds with a consumer are there. -/
  held : ∀ k ∈ s.run.constructedKinds, 0 < s.run.degrees.degree k → Log.Holds s.manager.log k
  /-- What was built, in order, and each once. -/
  built : Log.builtKinds s.manager.log = s.run.constructedKinds.toList
  /-- Only kinds that the client did not ask for were released. -/
  discards : ∀ k intermediate accepted, ⟨.discard k intermediate, accepted⟩ ∈ s.manager.log →
    k ∉ s.run.requestedKinds ∧ intermediate = true
  /-- Whenever a kind was to be built, its requirements were there. -/
  uses : Log.UsesHeld s.run.registry s.manager.log

/-- A call keeps the log in step with the run, if it releases nothing that is needed or requested,
builds what the run enters as built, and finds what it uses. -/
theorem Safe.snoc {s s' : Session K (Traced K S)} (h : Safe s) {e : Entry K}
    (hlog : s'.manager.log = s.manager.log ++ [e])
    (hrequested : s'.run.requestedKinds = s.run.requestedKinds)
    (hregistry : s'.run.registry = s.run.registry)
    (hbuilt : s'.run.constructedKinds.toList = s.run.constructedKinds.toList ++ e.built?.toList)
    (hdegree : ∀ k ∈ s.run.constructedKinds, 0 < s'.run.degrees.degree k →
      0 < s.run.degrees.degree k ∧ ¬ e.Drops k)
    (hdiscard : ∀ k intermediate accepted, e = ⟨.discard k intermediate, accepted⟩ →
      k ∉ s.run.requestedKinds ∧ intermediate = true)
    (huse : ∀ k compressed, e.event = .construct k compressed →
      ∀ q ∈ s.run.registry.requirements k, Log.Holds s.manager.log q) : Safe s' where
  held k hk hpos := by
    rw [hlog]
    rw [KindSet.mem_def, hbuilt, List.mem_append] at hk
    rcases hk with hk | hk
    · obtain ⟨hold, hdrop⟩ := hdegree k hk hpos
      exact (h.held k hk hold).snoc hdrop
    · match e, hk with
      | ⟨.construct j compressed, true⟩, hk =>
        obtain rfl : k = j := by simpa [Entry.built?] using hk
        exact Log.holds_snoc_construct ..
  built := by
    rw [hlog, hbuilt, ← h.built]
    unfold Log.builtKinds
    rw [List.filterMap_append]
    congr 1
  discards k intermediate accepted hmem := by
    rw [hrequested]
    rw [hlog, List.mem_append, List.mem_singleton] at hmem
    rcases hmem with hmem | hmem
    · exact h.discards k intermediate accepted hmem
    · exact hdiscard k intermediate accepted hmem.symm
  uses := by
    rw [hlog, hregistry]
    exact h.uses.snoc huse

/-- A change of the run alone, in which no kind without a consumer gets one. -/
theorem Safe.frame {s s' : Session K (Traced K S)} (h : Safe s)
    (hmanager : s'.manager = s.manager)
    (hrequested : s'.run.requestedKinds = s.run.requestedKinds)
    (hregistry : s'.run.registry = s.run.registry)
    (hbuilt : s'.run.constructedKinds = s.run.constructedKinds)
    (hdegree : ∀ k ∈ s.run.constructedKinds, 0 < s'.run.degrees.degree k →
      0 < s.run.degrees.degree k) : Safe s' where
  held k hk hpos := by
    rw [hmanager]
    rw [hbuilt] at hk
    exact h.held k hk (hdegree k hk hpos)
  built := by rw [hmanager, hbuilt]; exact h.built
  discards := by rw [hmanager, hrequested]; exact h.discards
  uses := by rw [hmanager, hregistry]; exact h.uses

/-- A call that neither builds nor releases. -/
theorem Safe.note {s s' : Session K (Traced K S)} (h : Safe s) {e : Entry K}
    (hlog : s'.manager.log = s.manager.log ++ [e])
    (hdiscard : ∀ k intermediate, e.event ≠ .discard k intermediate)
    (hconstruct : ∀ k compressed, e.event ≠ .construct k compressed)
    (hrequested : s'.run.requestedKinds = s.run.requestedKinds)
    (hregistry : s'.run.registry = s.run.registry)
    (hbuilt : s'.run.constructedKinds = s.run.constructedKinds)
    (hdegree : ∀ k ∈ s.run.constructedKinds, 0 < s'.run.degrees.degree k →
      0 < s.run.degrees.degree k) : Safe s' := by
  have hnone : e.built? = none := by
    match e with
    | ⟨.construct k compressed, true⟩ => exact absurd rfl (hconstruct k compressed)
    | ⟨.construct _ _, false⟩ | ⟨.ensure _, _⟩ | ⟨.discard _ _, _⟩ | ⟨.protect _, _⟩
    | ⟨.unprotect _, _⟩ | ⟨.compress _, _⟩ => rfl
  refine h.snoc hlog hrequested hregistry (by simp [hnone, hbuilt])
    (fun k hk hpos => ⟨hdegree k hk hpos, ?_⟩) ?_ fun k compressed heq => ?_
  · rintro ⟨intermediate, heq⟩
    exact hdiscard k intermediate heq
  · rintro k intermediate accepted rfl
    exact absurd rfl (hdiscard k intermediate)
  · exact absurd heq (hconstruct k compressed)

/-- A kind whose requirements are there is built, or its building is refused. -/
theorem Safe.construct {s s' : Session K (Traced K S)} (h : Safe s) {k : K}
    {compressed accepted : Bool}
    (hlog : s'.manager.log = s.manager.log ++ [⟨.construct k compressed, accepted⟩])
    (hrequested : s'.run.requestedKinds = s.run.requestedKinds)
    (hregistry : s'.run.registry = s.run.registry)
    (hbuilt : s'.run.constructedKinds.toList =
      s.run.constructedKinds.toList ++ if accepted then [k] else [])
    (hdegrees : s'.run.degrees = s.run.degrees)
    (hheld : ∀ q ∈ s.run.registry.requirements k, Log.Holds s.manager.log q) : Safe s' := by
  refine h.snoc hlog hrequested hregistry ?_ (fun j _ hpos => ⟨by rwa [← hdegrees], ?_⟩) ?_ ?_
  · cases accepted with
    | false => exact hbuilt
    | true => exact hbuilt
  · rintro ⟨intermediate, heq⟩
    cases heq
  · intro j intermediate accepted heq
    cases heq
  · intro j compressed heq
    cases heq
    exact hheld

/-- A kind that has no consumer, and that the client did not ask for, is released. -/
theorem Safe.discard {s s' : Session K (Traced K S)} (h : Safe s) {k : K} {intermediate : Bool}
    (hlog : s'.manager.log = s.manager.log ++ [⟨.discard k intermediate, true⟩])
    (hrequested : s'.run.requestedKinds = s.run.requestedKinds)
    (hregistry : s'.run.registry = s.run.registry)
    (hbuilt : s'.run.constructedKinds = s.run.constructedKinds)
    (hdegree : ∀ j, 0 < s'.run.degrees.degree j → 0 < s.run.degrees.degree j)
    (hzero : s'.run.degrees.degree k = 0) (hk : k ∉ s.run.requestedKinds)
    (hflag : intermediate = true) : Safe s' := by
  refine h.snoc hlog hrequested hregistry (by simp [Entry.built?, hbuilt])
    (fun j _ hpos => ⟨hdegree j hpos, ?_⟩) ?_ ?_
  · rintro ⟨intermediate, heq⟩
    cases heq
    exact absurd hzero (Nat.ne_of_gt hpos)
  · intro j intermediate accepted heq
    cases heq
    exact ⟨hk, hflag⟩
  · intro j compressed heq
    cases heq

/-- What a kind about to be built requires is there. -/
theorem Safe.requirements_held {s : Session K (Traced K S)} {tasks : List (Task K)}
    {slack : K → Nat} (h : Safe s) (hbalance : Balance slack ⟨s, tasks⟩) {k : K} {top : Bool}
    (hready : s.run.Ready k top) :
    ∀ q ∈ s.run.registry.requirements k, Log.Holds s.manager.log q := fun q hq =>
  h.held q (hready.requirements q hq)
    (hbalance.required_pos hready.wanted.reachable hready.unbuilt hq)

/-- Lowering a positive degree gives no kind a consumer. -/
theorem degree_pos_of_withDegree {r : Run K} {k j : K} {v n : Nat}
    (hk : r.degrees.degree k = v + 1) (hj : 0 < (r.withDegree k n).degrees.degree j) :
    0 < r.degrees.degree j := by
  rw [degree_withDegree] at hj
  split at hj
  · next heq =>
    rw [heq, hk]
    exact Nat.succ_pos v
  · exact hj

/-- Every step of the evaluation phase keeps the log in step with the run. -/
theorem Safe.step {m : Manager K E S} {slack : K → Nat} {c c' : Stage K (Traced K S)}
    (h : Safe c.session) (hbalance : Balance slack c) (hstep : Step m.traced c c') :
    Safe c'.session := by
  cases hstep with
  | consult hreg => exact h.frame rfl rfl hreg rfl fun _ _ hpos => hpos
  | construct hready hm =>
    exact h.construct (Traced.log_of_ask_ok hm) rfl rfl
      (KindSet.toList_insert_of_not_mem hready.unbuilt) rfl (h.requirements_held hbalance hready)
  | keepByproduct _ => exact h
  | @dropByproduct s k tasks hdeg =>
    have hk : k ∉ s.run.requestedKinds := fun hk =>
      absurd hdeg (Nat.ne_of_gt (hbalance.requested_pos hk))
    exact h.discard (Traced.log_tell ..) rfl rfl rfl (fun _ hpos => hpos) hdeg hk rfl
  | @releaseLast s k tasks hdeg =>
    have hk : k ∉ s.run.requestedKinds := hbalance.not_requested_of_last hdeg
    have hzero : (s.run.withDegree k 0).degrees.degree k = 0 := by
      rw [degree_withDegree, if_pos rfl]
    exact h.discard (Traced.log_tell ..) rfl rfl rfl
      (fun j hpos => degree_pos_of_withDegree hdeg hpos) hzero hk (by simpa using hk)
  | releaseToLast hdeg _ =>
    exact h.note (Traced.log_tell ..) (by simp) (by simp) rfl rfl rfl
      fun j _ hpos => degree_pos_of_withDegree hdeg hpos
  | releaseShared hdeg _ =>
    exact h.frame rfl rfl rfl rfl fun j _ hpos => degree_pos_of_withDegree hdeg hpos
  | settleSkip _ => exact h
  | settleDone _ hm =>
    exact h.note (Traced.log_of_ask_ok hm) (by simp) (by simp) rfl rfl rfl fun _ _ hpos => hpos

/-- A step that fails leaves the log in step with the run. -/
theorem Safe.stop {m : Manager K E S} {slack : K → Nat} {c : Stage K (Traced K S)}
    {e : ScheduleError K E} {t : Session K (Traced K S)} (h : Safe c.session)
    (hbalance : Balance slack c) (hstop : Stop m.traced c e t) : Safe t := by
  cases hstop with
  | construct hready hm =>
    exact h.construct (Traced.log_of_ask_error hm) rfl rfl (by simp) rfl
      (h.requirements_held hbalance hready)
  | settle _ hm =>
    exact h.note (Traced.log_of_ask_error hm) (by simp) (by simp) rfl rfl rfl fun _ _ hpos => hpos
  | release _ => exact h

/-- While kinds are only counted, nothing is built or released. -/
theorem Safe.requestSteps {m : Manager K E S} {s t : Session K (Traced K S)} (h : Safe s)
    (hempty : s.run.constructedKinds = .empty) (hsteps : RequestSteps m.traced s t) : Safe t := by
  induction hsteps with
  | refl => exact h
  | @tail u v hsteps hstep ih =>
    have hu : u.run.constructedKinds = .empty := by
      rw [RequestSteps.run_eq hsteps]
      exact hempty
    have hno : ∀ {P : K → Prop}, ∀ k ∈ u.run.constructedKinds, P k := by
      intro P k hk
      rw [hu] at hk
      exact absurd hk (KindSet.not_mem_empty k)
    cases hstep with
    | ensured hm =>
      exact ih.note (Traced.log_of_ask_ok hm) (by simp) (by simp) rfl rfl rfl hno
    | refused hm =>
      exact ih.note (Traced.log_of_ask_error hm) (by simp) (by simp) rfl rfl rfl hno
    | counted k =>
      unfold counted
      split
      · exact ih.note (e := ⟨.protect k, true⟩) rfl (by simp) (by simp) rfl rfl rfl hno
      · exact ih.frame rfl rfl rfl rfl hno

/-! ## Every call of a client -/

/-- What holds of a session between any two calls of its client. -/
structure Sound (r : Registry K) (requested : List K) (s : Session K (Traced K S)) : Prop where
  registry_eq : s.run.registry = r
  requested_eq : s.run.requestedKinds = .ofList requested
  safe : Safe s
  /-- Until the request phase is over kinds are only counted. -/
  counted : s.run.phase = .fresh → (∃ extra, s.run.Counted extra) ∧ s.run.live = .zero
  /-- From then on the counts are in balance. -/
  balanced : s.run.phase ≠ .fresh → ∃ slack, Balance slack ⟨s, []⟩

/-- A run upholds it, whatever the manager refuses. -/
theorem upholds_safe (m : Manager K E S) : Upholds m.traced Safe where
  requestStep hstep hempty hs := hs.requestSteps hempty (.single hstep)
  requested _ hs := hs.frame rfl rfl rfl rfl fun _ _ hpos => hpos
  step hbalance hstep hc := hc.step hbalance hstep
  stop hbalance hstop hc := hc.stop hbalance hstop
  evaluated hs := hs.frame rfl rfl rfl rfl fun _ _ hpos => hpos

/-- A session is sound exactly if its log is safe, beside what every run keeps. -/
theorem sound_iff {r : Registry K} {requested : List K} {s : Session K (Traced K S)} :
    Sound r requested s ↔ Kept r requested Safe s :=
  ⟨fun h => ⟨h.registry_eq, h.requested_eq, h.counted, h.balanced, h.safe⟩,
    fun h => ⟨h.registry_eq, h.requested_eq, h.upheld, h.counted, h.balanced⟩⟩

/-- Nothing has been called yet. -/
theorem safe_start {registry : Registry K} {requested : List K} {mode : Mode} {run : Run K}
    (h : Run.start registry requested mode = .ok run) (s : S) : Safe ⟨run, Traced.start s⟩ := by
  obtain ⟨-, rfl⟩ := start_ok h
  exact {
    held := fun k hk => absurd hk (KindSet.not_mem_empty k)
    built := rfl
    discards := fun _ _ _ hmem => absurd hmem List.not_mem_nil
    uses := fun _ _ _ _ _ heq => by simp [Traced.start] at heq }

/-- The session in which a run starts. -/
theorem sound_start {registry : Registry K} {requested : List K} {mode : Mode} {run : Run K}
    (h : Run.start registry requested mode = .ok run) (s : S) :
    Sound registry requested ⟨run, Traced.start s⟩ :=
  sound_iff.2 (kept_start h (safe_start h s))

/-- The requested kinds of a sound session are those that the client listed. -/
theorem Sound.mem_requestedKinds {r : Registry K} {requested : List K}
    {s : Session K (Traced K S)} (h : Sound r requested s) (k : K) :
    k ∈ s.run.requestedKinds.toList ↔ k ∈ requested := (sound_iff.1 h).mem_requestedKinds k

/-- A request leaves a sound session, and the only failures it knows are the manager's and that of
being called again. -/
theorem Sound.request {r : Registry K} (L : r.Layers) {requested : List K} {m : Manager K E S}
    {s : Session K (Traced K S)} (h : Sound r requested s) :
    Ends (Run.request m.traced) s (fun _ t => Sound r requested t)
      fun e t => Sound r requested t ∧ ∀ cause, e ≠ .invariant cause := by
  simp only [sound_iff] at h ⊢
  exact h.request L (upholds_safe m)

/-- An evaluation leaves a sound session, and never fails because of the counts. -/
theorem Sound.evaluate {r : Registry K} (L : r.Layers) {requested : List K} {m : Manager K E S}
    {s : Session K (Traced K S)} (h : Sound r requested s) :
    Ends (Run.evaluate m.traced) s (fun _ t => Sound r requested t)
      fun e t => Sound r requested t ∧ ∀ cause, e ≠ .invariant cause := by
  simp only [sound_iff] at h ⊢
  exact h.evaluate L (upholds_safe m)

/-- The live count of a sound session was never negative. -/
theorem Sound.least_nonneg {r : Registry K} {requested : List K} {s : Session K (Traced K S)}
    (h : Sound r requested s) : 0 ≤ s.run.live.least := by
  by_cases hphase : s.run.phase = .fresh
  · rw [(h.counted hphase).2]
    exact Int.le_refl _
  · obtain ⟨slack, hbalance⟩ := h.balanced hphase
    exact hbalance.least_nonneg

/-- What a client can rely on after any calls, given their outcomes and the session they leave. -/
structure Harmless (r : Registry K) (requested : List K) (outcomes : List (Outcome K E))
    (s : Session K (Traced K S)) : Prop where
  /-- No call failed because the counts did not fit the requirements. -/
  counts_fit : ∀ o ∈ outcomes, ∀ cause, o ≠ .error (.invariant cause)
  /-- Whenever a kind was to be built, each of its requirements had been built and not released
  since. -/
  uses_held : Log.UsesHeld r s.manager.log
  /-- No kind was built twice. -/
  built_once : (Log.builtKinds s.manager.log).Nodup
  /-- Only what the client did not ask for was released, and it was released as such. -/
  discards : ∀ k intermediate accepted, ⟨.discard k intermediate, accepted⟩ ∈ s.manager.log →
    k ∉ requested ∧ intermediate = true
  /-- The number of live kinds was never negative. -/
  live_nonneg : 0 ≤ s.run.live.least

/-- Whatever the manager refuses, and in whatever order a client calls the phases, a run on a valid
registry does no harm. -/
theorem harmless_under_failures {registry : Registry K} {requested : List K} {mode : Mode}
    {run : Run K} (hstart : Run.start registry requested mode = .ok run) (m : Manager K E S) (s : S)
    (calls : List PhaseCall) :
    Harmless registry requested (serveAll m.traced calls ⟨run, Traced.start s⟩).1
      (serveAll m.traced calls ⟨run, Traced.start s⟩).2 := by
  obtain ⟨hkept, houtcomes⟩ := kept_serveAll hstart (upholds_safe m) (safe_start hstart s) calls
  have hsound := sound_iff.2 hkept
  have hsafe := hsound.safe
  refine ⟨houtcomes, ?_, ?_, ?_, hsound.least_nonneg⟩
  · rw [← hsound.registry_eq]
    exact hsafe.uses
  · rw [hsafe.built]
    exact KindSet.nodup _
  · intro k intermediate accepted hmem
    obtain ⟨hk, hflag⟩ := hsafe.discards k intermediate accepted hmem
    rw [hsound.requested_eq, KindSet.mem_ofList] at hk
    exact ⟨hk, hflag⟩

/-- A diamond whose manager refuses one call of each sort that it may refuse: the first request fails, and
so do the first two evaluations. By the end of the last one all four kinds have been built, and two of them
have been released. -/
theorem harmless_when_construct_refused :
    ∃ run, Run.start Registry.diamond [3, 0] .delayed = .ok run ∧
      let answers := [true, false, true, true, true, true, true, true, true, false, true, true, false]
      let after := serveAll Recorder.gated.traced
        [.request, .request, .evaluate, .evaluate, .evaluate] ⟨run, Traced.start ⟨answers, .new none⟩⟩
      Harmless Registry.diamond [3, 0] after.1 after.2 ∧
        after.1.map Except.isOk = [false, true, false, false, true] ∧
        after.2.manager.log.builtKinds = [0, 1, 2, 3] ∧
        ∀ k ∈ [1, 2], ⟨.discard k true, true⟩ ∈ after.2.manager.log :=
  ⟨_, rfl, harmless_under_failures rfl _ _ _, by decide +kernel, by decide +kernel, by decide +kernel⟩

end TextIndex.Run
