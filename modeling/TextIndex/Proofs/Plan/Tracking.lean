import TextIndex.Proofs.Plan.Protection

/-!
# When kinds are unprotected

A kind is unprotected when its degree falls from two to one and the client did not ask for it.
`Unprotected` counts these calls. Each kind has one release due at a time (`ReleasesOnce`), so without
slack in the counts one of the two consumers has just been built and the other is to come
(`Balance.last_to_come`).

`Tracking` collects what is known at every step of the evaluation, with any slack. Slack comes from
refused compressions only: as long as there is none, `Exact` holds besides.
-/

set_option autoImplicit false

namespace TextIndex

variable {K E S : Type} [DecidableEq K]

namespace Log

/-- The call builds a kind. What that kind requires and is not protected, the client did not ask for,
and no other kind waits for it. -/
def Reuses (r : Registry K) (requested : List K) (before : Log K) (e : Entry K) : Prop :=
  ∀ k compressed, e.event = .construct k compressed → ∀ q ∈ r.requirements k,
    q ∉ before.protectedKinds → q ∉ requested ∧ before.LastConsumer r requested q k

/-- The call unprotects a kind. All its consumers have been built but one. -/
def LeavesOne (r : Registry K) (requested : List K) (before : Log K) (e : Entry K) : Prop :=
  ∀ k, e.event = .unprotect k → ∃ last, before.LastConsumer r requested k last

/-- A call that is not in the log was not received. -/
theorem received_of_not_mem {log : Log K} {event : Event K} (h : ∀ e ∈ log, e.event ≠ event) :
    received log event = 0 := by
  unfold received
  rw [List.countP_eq_zero]
  intro e he
  simpa using h e he

end Log

namespace Run

/-! ## The last consumer to come -/

/-- No kind has two releases due. -/
def ReleasesOnce (tasks : List (Task K)) : Prop := ∀ k, tasks.count (.release k) ≤ 1

/-- When a task is done the others still release each kind once. -/
theorem ReleasesOnce.tail {task : Task K} {tasks : List (Task K)} (h : ReleasesOnce (task :: tasks)) :
    ReleasesOnce tasks := fun k => Nat.le_trans (List.count_le_count_cons ..) (h k)

/-- A step leaves no two tasks that release the same kind. -/
theorem ReleasesOnce.step {m : Manager K E S} {c c' : Stage K S} (h : ReleasesOnce c.tasks)
    (hstep : Step m c c') : ReleasesOnce c'.tasks := by
  cases hstep with
  | consult _ => exact h
  | @construct s k top t hready hm =>
    intro x
    show (s.run.tasksAfter top k).count (.release x) ≤ 1
    rw [count_release_tasksAfter]
    split <;> omega
  | @releaseShared s k n tasks hdeg hshared =>
    intro x
    have hx := h.tail x
    have hsettle : (if s.run.mode = .delayed then [Task.settle k] else []).count (.release x) = 0 := by
      split <;> simp
    rw [List.count_append, hsettle]
    omega
  | _ => exact h.tail

/-- When a kind loses the last but one of its consumers, and the client is not among them, exactly one
kind is left that waits for it. -/
theorem Balance.last_to_come {s : Session K S} {tasks : List (Task K)} {k : K}
    (h : Balance (fun _ => 0) ⟨s, .release k :: tasks⟩) (honce : ReleasesOnce (.release k :: tasks))
    (hdeg : s.run.degrees.degree k = 2) (hk : k ∉ s.run.requestedKinds) :
    ∃ last, ∀ y, (s.run.degrees.Contains y ∧ k ∈ s.run.registry.requirements y ∧
      y ∉ s.run.constructedKinds) ↔ y = last := by
  have hrelease : (Task.release k :: tasks).count (.release k) = 1 := by
    apply Nat.le_antisymm (honce k)
    rw [List.count_cons_self]
    omega
  have hone : s.run.consumers k = 1 := by
    have hout := h.degree_eq k
    simp only [outstanding, hdeg, if_neg hk, hrelease] at hout
    omega
  have hpos : 0 < s.run.consumers k := by omega
  unfold consumers at hpos hone
  rw [List.countP_pos_iff] at hpos
  obtain ⟨last, hlast, hwaits⟩ := hpos
  refine ⟨last, fun y => ⟨?_, ?_⟩⟩
  · rintro ⟨hy, hky, hnew⟩
    apply eq_of_countP_le_one (Nat.le_of_eq hone) hy _ hlast hwaits
    simpa using ⟨hnew, hky⟩
  · rintro rfl
    have hw : y ∉ s.run.constructedKinds ∧ k ∈ s.run.registry.requirements y := by simpa using hwaits
    exact ⟨hlast, hw.2, hw.1⟩

/-! ## What was unprotected -/

/-- Unprotected, and that once, are the kinds that the client did not ask for and that have at most
one consumer left of several. -/
def Unprotected (first : K → Nat) (s : Session K (Traced K S)) : Prop :=
  ∀ k, Log.received s.manager.log (.unprotect k) =
    if k ∉ s.run.requestedKinds ∧ s.run.degrees.degree k ≤ 1 ∧ 2 ≤ first k then 1 else 0

/-- A step that unprotects nothing and brings no degree from several to one. -/
theorem Unprotected.keep {first : K → Nat} {s s' : Session K (Traced K S)} (h : Unprotected first s)
    (hlog : s'.manager.log = s.manager.log ∨ ∃ e : Entry K,
      (∀ k, e.event ≠ .unprotect k) ∧ s'.manager.log = s.manager.log ++ [e])
    (hrequested : s'.run.requestedKinds = s.run.requestedKinds)
    (hdegree : ∀ k, k ∉ s.run.requestedKinds →
      (s'.run.degrees.degree k ≤ 1 ↔ s.run.degrees.degree k ≤ 1)) : Unprotected first s' := by
  intro k
  have hreceived : Log.received s'.manager.log (.unprotect k) =
      Log.received s.manager.log (.unprotect k) := by
    rcases hlog with hlog | ⟨e, he, hlog⟩
    · rw [hlog]
    · rw [hlog, Log.received_snoc, if_neg (he k), Nat.add_zero]
  rw [hreceived, hrequested, h k]
  apply if_congr _ rfl rfl
  constructor
  · rintro ⟨hk, hone, htwo⟩
    exact ⟨hk, (hdegree k hk).2 hone, htwo⟩
  · rintro ⟨hk, hone, htwo⟩
    exact ⟨hk, (hdegree k hk).1 hone, htwo⟩

/-- A step unprotects a kind when it brings its degree from several to one, and only then. -/
theorem Unprotected.step {m : Manager K E S} {first : K → Nat} {c c' : Stage K (Traced K S)}
    (h : Unprotected first c.session) (hle : ∀ k, c.session.run.degrees.degree k ≤ first k)
    (hstep : Step m.traced c c') : Unprotected first c'.session := by
  cases hstep with
  | @releaseToLast s k tasks hdeg hk =>
    intro x
    have hx : Log.received s.manager.log (.unprotect x) = if x ∉ s.run.requestedKinds ∧
        s.run.degrees.degree x ≤ 1 ∧ 2 ≤ first x then 1 else 0 := h x
    show Log.received (s.manager.log ++ [⟨.unprotect k, true⟩]) (.unprotect x) =
      if x ∉ s.run.requestedKinds ∧ (s.run.withDegree k 1).degrees.degree x ≤ 1 ∧ 2 ≤ first x
        then 1 else 0
    rw [Log.received_snoc, degree_withDegree, hx]
    by_cases hxk : x = k
    · -- with two consumers it has not been unprotected before
      subst hxk
      have htwo : s.run.degrees.degree x ≤ first x := hle x
      have hnow : x ∉ s.run.requestedKinds ∧ 1 ≤ 1 ∧ 2 ≤ first x := ⟨hk, Nat.le_refl 1, by omega⟩
      rw [if_neg (by omega), if_pos rfl, if_pos rfl, if_pos hnow]
    · have hevent : Event.unprotect k ≠ Event.unprotect x := by simpa using Ne.symm hxk
      rw [if_neg hevent, if_neg hxk, Nat.add_zero]
  | @releaseLast s k tasks hdeg =>
    refine h.keep (Or.inr ⟨⟨.discard k (k ∉ s.run.requestedKinds), true⟩, by simp,
      Traced.log_tell ..⟩) rfl ?_
    intro x _
    show (s.run.withDegree k 0).degrees.degree x ≤ 1 ↔ s.run.degrees.degree x ≤ 1
    rw [degree_withDegree]
    split
    · next hx =>
      subst hx
      omega
    · rfl
  | @releaseShared s k n tasks hdeg hshared =>
    refine h.keep (Or.inl rfl) rfl ?_
    intro x hx
    have hx' : x ∉ s.run.requestedKinds := hx
    show (s.run.withDegree k (n + 1)).degrees.degree x ≤ 1 ↔ s.run.degrees.degree x ≤ 1
    rw [degree_withDegree]
    split
    · next heq =>
      subst heq
      have hn : n ≠ 0 := hshared.resolve_right hx'
      omega
    · rfl
  | construct _ hm =>
    exact h.keep (Or.inr ⟨_, by simp, Traced.log_of_ask_ok hm⟩) rfl fun _ _ => Iff.rfl
  | dropByproduct _ =>
    exact h.keep (Or.inr ⟨_, by simp, Traced.log_tell ..⟩) rfl fun _ _ => Iff.rfl
  | settleDone _ hm =>
    exact h.keep (Or.inr ⟨_, by simp, Traced.log_of_ask_ok hm⟩) rfl fun _ _ => Iff.rfl
  | consult _ => exact h.keep (Or.inl rfl) rfl fun _ _ => Iff.rfl
  | keepByproduct _ => exact h
  | settleSkip _ => exact h

/-- A refused call unprotects nothing. -/
theorem Unprotected.stop {m : Manager K E S} {first : K → Nat} {c : Stage K (Traced K S)}
    {e : ScheduleError K E} {t : Session K (Traced K S)} (h : Unprotected first c.session)
    (hstop : Stop m.traced c e t) : Unprotected first t := by
  cases hstop with
  | construct _ hm =>
    exact h.keep (Or.inr ⟨_, by simp, Traced.log_of_ask_error hm⟩) rfl fun _ _ => Iff.rfl
  | settle _ hm =>
    exact h.keep (Or.inr ⟨_, by simp, Traced.log_of_ask_error hm⟩) rfl fun _ _ => Iff.rfl
  | release _ => exact h

/-! ## The invariant of the evaluation phase -/

/-- What a kind requires was built before it. -/
theorem Safe.closed {s : Session K (Traced K S)} (h : Safe s) {k q : K}
    (hk : k ∈ s.run.constructedKinds) (hq : q ∈ s.run.registry.requirements k) :
    q ∈ s.run.constructedKinds := by
  have hbuilt : k ∈ Log.builtKinds s.manager.log := by
    rw [h.built]
    exact hk
  obtain ⟨⟨event, accepted⟩, he, hek⟩ := List.mem_filterMap.1 hbuilt
  obtain ⟨compressed, rfl⟩ : ∃ compressed, event = .construct k compressed := by
    cases event <;> cases accepted <;> simp_all [Entry.built?]
  obtain ⟨before, after, hlog⟩ := List.append_of_mem he
  obtain ⟨early, flag, late, rfl, -⟩ := h.uses before k compressed accepted after hlog q hq
  rw [KindSet.mem_def, ← h.built, hlog]
  unfold Log.builtKinds
  simp [Entry.built?]

/-- What is known during the evaluation, after any number of attempts. The degrees were `first` when
the request ended, and the manager was in the state `s₀` at the start. -/
structure Tracking (r : Registry K) (requested : List K) (first : K → Nat) (m : Manager K E S) (s₀ : S)
    (slack : K → Nat) (c : Stage K (Traced K S)) : Prop where
  registry_eq : c.session.run.registry = r
  mem_requested : ∀ k, k ∈ c.session.run.requestedKinds ↔ k ∈ requested
  contains_iff : ∀ k, c.session.run.degrees.Contains k ↔ r.Reachable requested k
  balance : Balance slack c
  safe : Safe c.session
  guarded : Guarded first c.session.run
  /-- Every record that a manager keeps agrees with the run. -/
  agrees : ∀ held : Traced K S → K → Prop, m.traced.Records held →
    (∀ k, ¬ held (Traced.start s₀) k) → Agrees held c.session
  reuse : c.session.manager.log.Always (Log.Reuses r requested)
  unprotected : Unprotected first c.session

section Tracking

variable {r : Registry K} {requested : List K} {first : K → Nat} {m : Manager K E S} {s₀ : S}
  {slack : K → Nat} {c : Stage K (Traced K S)}

/-- The log protects the same kinds as the run. -/
theorem Tracking.mem_protected (h : Tracking r requested first m s₀ slack c) (k : K) :
    k ∈ c.session.manager.log.protectedKinds ↔ k ∈ c.session.run.protectedKinds :=
  h.agrees _ m.records_log (fun j => KindSet.not_mem_empty j) k

/-- The log has the same built kinds as the run. -/
theorem Tracking.mem_built (h : Tracking r requested first m s₀ slack c) (k : K) :
    k ∈ c.session.manager.log.builtKinds ↔ k ∈ c.session.run.constructedKinds := by
  rw [h.safe.built]
  rfl

/-- The run's own registry and request reach the same kinds. -/
theorem Tracking.reachable_iff (h : Tracking r requested first m s₀ slack c) (k : K) :
    c.session.run.registry.Reachable c.session.run.requestedKinds.toList k ↔
      r.Reachable requested k := by
  rw [h.registry_eq]
  exact Registry.reachable_congr h.mem_requested

/-- A kind is built, or refused, only with its unprotected requirements to itself. -/
theorem Tracking.calls_reuse (h : Tracking r requested first m s₀ slack c) {event : Event K}
    (hcalls : c.Calls event) (accepted : Bool) :
    Log.Reuses r requested c.session.manager.log ⟨event, accepted⟩ := by
  rintro k compressed rfl q hq hfree
  obtain ⟨htasks, ⟨top, hready⟩, -⟩ := hcalls
  obtain ⟨s, tasks⟩ := c
  obtain rfl : tasks = [] := htasks
  have hfree' : q ∉ s.run.protectedKinds := fun hq' => hfree ((h.mem_protected q).2 hq')
  have hq' : q ∈ s.run.registry.requirements k := by
    rw [h.registry_eq]
    exact hq
  obtain ⟨hclient, halone⟩ := h.guarded.last_consumer h.balance hready hq' hfree'
  refine ⟨fun hmem => hclient ((h.mem_requested q).2 hmem), fun y => ⟨?_, ?_⟩⟩
  · rintro ⟨hy, hqy, hnew⟩
    apply halone y ((h.reachable_iff y).2 hy)
    · rw [h.registry_eq]
      exact hqy
    · exact fun hmem => hnew ((h.mem_built y).2 hmem)
  · rintro rfl
    exact ⟨(h.reachable_iff y).1 hready.wanted.reachable, hq,
      fun hmem => hready.unbuilt ((h.mem_built y).1 hmem)⟩

/-- A step of an evaluation keeps the counts tracked. -/
theorem Tracking.step (h : Tracking r requested first m s₀ slack c) {c' : Stage K (Traced K S)}
    (hstep : Step m.traced c c') : Tracking r requested first m s₀ slack c' where
  registry_eq := (Steps.registry_eq (.single hstep)).trans h.registry_eq
  mem_requested := by
    rw [Steps.requestedKinds_eq (.single hstep)]
    exact h.mem_requested
  contains_iff k := by
    have hkeys := Steps.keys_eq (.single hstep)
    rw [← h.contains_iff k]
    show k ∈ c'.session.run.degrees.keys ↔ k ∈ c.session.run.degrees.keys
    rw [hkeys]
  balance := h.balance.step hstep
  safe := h.safe.step h.balance hstep
  guarded := h.guarded.step h.balance hstep
  agrees held hm hstart := (h.agrees held hm hstart).step hm h.guarded h.balance hstep
  reuse := hstep.always h.reuse fun _ hcalls => h.calls_reuse hcalls true
  unprotected := h.unprotected.step h.guarded.degree_le hstep

/-- Steps of an evaluation keep the counts tracked. -/
theorem Tracking.steps (h : Tracking r requested first m s₀ slack c) {c' : Stage K (Traced K S)}
    (hsteps : Steps m.traced c c') : Tracking r requested first m s₀ slack c' := by
  induction hsteps with
  | refl => exact h
  | tail _ hstep ih => exact ih.step hstep

/-- A step that fails leaves all this, with the releases that were due as slack. -/
theorem Tracking.stop (h : Tracking r requested first m s₀ slack c) {e : ScheduleError K E}
    {t : Session K (Traced K S)} (hstop : Stop m.traced c e t) {slack' : K → Nat}
    (hbalance : Balance slack' ⟨t, []⟩) : Tracking r requested first m s₀ slack' ⟨t, []⟩ where
  registry_eq := hstop.keeps.1.trans h.registry_eq
  mem_requested k := by
    rw [hstop.keeps.2.1]
    exact h.mem_requested k
  contains_iff k := by
    rw [← h.contains_iff k]
    cases hstop <;> rfl
  balance := hbalance
  safe := h.safe.stop h.balance hstop
  guarded := h.guarded.stop hstop
  agrees held hm hstart := (h.agrees held hm hstart).stop hm hstop
  reuse := hstop.always h.reuse fun _ hcalls => h.calls_reuse hcalls false
  unprotected := h.unprotected.stop hstop

/-- The phase and the schedule do not matter. -/
theorem Tracking.frame {s t : Session K (Traced K S)} (h : Tracking r requested first m s₀ slack ⟨s, []⟩)
    (hrun : t.run = { s.run with phase := t.run.phase, schedule := t.run.schedule })
    (hmanager : t.manager = s.manager) : Tracking r requested first m s₀ slack ⟨t, []⟩ := by
  obtain ⟨run, manager⟩ := t
  obtain rfl : manager = s.manager := hmanager
  have hrun' : run = { s.run with phase := run.phase, schedule := run.schedule } := hrun
  rw [hrun']
  exact {
    registry_eq := h.registry_eq
    mem_requested := h.mem_requested
    contains_iff := h.contains_iff
    balance := h.balance.frame rfl rfl rfl rfl rfl fun _ => rfl
    safe := h.safe.frame rfl rfl rfl rfl fun _ _ hpos => hpos
    guarded := ⟨h.guarded.protected_iff, h.guarded.degree_le⟩
    agrees := fun held hm hstart => h.agrees held hm hstart
    reuse := h.reuse
    unprotected := h.unprotected }

/-! ## Without slack -/

/-- Nothing was left behind so far: whenever a kind was unprotected it had one consumer to come. -/
structure Exact (r : Registry K) (requested : List K) (c : Stage K (Traced K S)) : Prop where
  balance : Balance (fun _ => 0) c
  once : ReleasesOnce c.tasks
  leaves : c.session.manager.log.Always (Log.LeavesOne r requested)

/-- While the counts are exact, a kind is unprotected only if one of its consumers is still to come. -/
theorem Exact.calls_leave (h : Exact r requested c) (htrack : Tracking r requested first m s₀ slack c)
    {event : Event K} (hcalls : c.Calls event) (accepted : Bool) :
    Log.LeavesOne r requested c.session.manager.log ⟨event, accepted⟩ := by
  rintro k rfl
  obtain ⟨tasks, htasks, hdeg, hk⟩ := hcalls
  obtain ⟨s, tasks'⟩ := c
  obtain rfl : tasks' = .release k :: tasks := htasks
  obtain ⟨last, hlast⟩ := h.balance.last_to_come h.once hdeg hk
  refine ⟨last, fun y => ?_⟩
  rw [← hlast y, htrack.contains_iff, htrack.registry_eq, htrack.mem_built]

/-- A step keeps the counts exact. -/
theorem Exact.step (h : Exact r requested c) (htrack : Tracking r requested first m s₀ slack c)
    {c' : Stage K (Traced K S)} (hstep : Step m.traced c c') : Exact r requested c' where
  balance := h.balance.step hstep
  once := h.once.step hstep
  leaves := hstep.always h.leaves fun _ hcalls => h.calls_leave htrack hcalls true

/-- Steps keep the counts exact. -/
theorem Exact.steps (h : Exact r requested c) (htrack : Tracking r requested first m s₀ slack c)
    {c' : Stage K (Traced K S)} (hsteps : Steps m.traced c c') : Exact r requested c' := by
  induction hsteps with
  | refl => exact h
  | tail hsteps hstep ih => exact ih.step (htrack.steps hsteps) hstep

/-- A step that fails leaves nothing behind unless a compression is refused. -/
theorem Exact.stop (h : Exact r requested c) (htrack : Tracking r requested first m s₀ slack c)
    {e : ScheduleError K E} {t : Session K (Traced K S)} (hstop : Stop m.traced c e t)
    (hcompress : ∀ k, ⟨.compress k, false⟩ ∉ t.manager.log) : Exact r requested ⟨t, []⟩ := by
  have hleaves : t.manager.log.Always (Log.LeavesOne r requested) :=
    hstop.always h.leaves fun _ hcalls => h.calls_leave htrack hcalls false
  have hbalance := h.balance
  cases hstop with
  | construct _ _ =>
    exact ⟨hbalance.frame rfl rfl rfl rfl rfl fun _ => rfl, h.once, hleaves⟩
  | @settle s k e t tasks halone hm =>
    refine absurd ?_ (hcompress k)
    show _ ∈ t.log
    rw [Traced.log_of_ask_error hm]
    exact List.mem_append_right _ (List.mem_singleton_self _)
  | release hdeg => exact absurd hdeg (Nat.ne_of_gt hbalance.release_pos)

end Tracking

end Run

end TextIndex
