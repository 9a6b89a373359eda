import TextIndex.Proofs.Plan.Conservation

/-!
# A run that meets no refusal

With a manager that refuses nothing, a request and an evaluation end with exactly the
requested kinds.

* The evaluation cannot fail: its only other failure is a release that finds no consumer, and the
  balance of the counts excludes it.
* A kind is built when it is ready, so the built kinds are listed after what they require
  (`Sorted`), and every requested kind is built, so the built kinds are the reachable ones.
* In the end no built kind has a consumer to come, so without slack only the client is left in the
  degrees.
* A kind that appears, built or as a byproduct, is released afterwards: at once when it has no
  consumer, and otherwise with its last one (`Drained`).
-/

set_option autoImplicit false

namespace TextIndex

variable {K E S : Type}

/-- In the states that satisfy `I` a manager refuses nothing, and all that it does keeps `I`. -/
structure Manager.Willing (m : Manager K E S) (I : S → Prop) : Prop extends m.Prepares I where
  construct : ∀ k compressed s, I s → ∃ t, m.construct k compressed s = .ok () t ∧ I t
  compress : ∀ k s, I s → ∃ t, m.compress k s = .ok () t ∧ I t
  discard : ∀ k intermediate s, I s → I (m.discard k intermediate s)
  unprotect : ∀ k s, I s → I (m.unprotect k s)

variable [DecidableEq K]

/-- A recorder that is not made to fail refuses nothing. -/
theorem Recorder.willing :
    (Recorder.manager (K := K)).Willing fun s : Recorder K => s.failOn = none where
  ensure _ _ h := ⟨_, rfl, h⟩
  protect _ _ h := h
  construct k compressed s h := by
    refine ⟨s.construct k compressed, ?_, h⟩
    show (if s.failOn = some k then _ else _ : EStateM (InjectedFailure K) _ Unit) s = _
    rw [h]
    rfl
  compress _ _ h := ⟨_, rfl, h⟩
  discard _ _ _ h := h
  unprotect _ _ h := h

/-- The call made the kind appear: it built the kind, or one that yields it. -/
def Entry.Yields (r : Registry K) (e : Entry K) (x : K) : Prop :=
  ∃ k, e.built? = some k ∧ (x = k ∨ x ∈ r.byproducts k)

/-- Whenever the kind appeared, it was released later on. -/
def Log.Drained (r : Registry K) (log : Log K) (x : K) : Prop :=
  ∀ before e after, log = before ++ e :: after → e.Yields r x → ∃ e' ∈ after, e'.Drops x

namespace Log

/-- A call that does not make the kind appear changes nothing. -/
theorem Drained.snoc {r : Registry K} {log : Log K} {x : K} (h : Drained r log x) {e : Entry K}
    (he : ¬ e.Yields r x) : Drained r (log ++ [e]) x := by
  intro before e' after heq hyields
  rcases snoc_eq_append_cons heq with ⟨rfl, rfl, -⟩ | ⟨rest, rfl, hsplit⟩
  · exact absurd hyields he
  · obtain ⟨d, hd, hdrops⟩ := h before e' rest hsplit hyields
    exact ⟨d, List.mem_append_left _ hd, hdrops⟩

/-- A release settles everything before it. -/
theorem drained_snoc_discard (r : Registry K) (log : Log K) (x : K) (intermediate : Bool) :
    Drained r (log ++ [⟨.discard x intermediate, true⟩]) x := by
  intro before e after heq hyields
  rcases snoc_eq_append_cons heq with ⟨rfl, rfl, -⟩ | ⟨rest, rfl, -⟩
  · obtain ⟨k, hk, -⟩ := hyields
    cases hk
  · exact ⟨_, List.mem_append_right _ (List.mem_singleton_self _), intermediate, rfl⟩

/-- Where nothing was built nothing appeared. -/
theorem drained_of_builtKinds {r : Registry K} {log : Log K} (h : builtKinds log = []) (x : K) :
    Drained r log x := by
  rintro before e after rfl ⟨k, hk, -⟩
  have hmem : k ∈ builtKinds (before ++ e :: after) :=
    List.mem_filterMap.2 ⟨e, by simp, hk⟩
  rw [h] at hmem
  exact absurd hmem List.not_mem_nil

end Log

namespace Run

/-! ## The order of building -/

/-- The built kinds are listed in the schedule, reachable, and each after what it requires. -/
structure Sorted (r : Run K) : Prop where
  listed : r.schedule.constructed = r.constructedKinds.toList
  reachable : ∀ k ∈ r.constructedKinds, r.registry.Reachable r.requestedKinds.toList k
  sorted : ∀ before k after, r.constructedKinds.toList = before ++ k :: after →
    ∀ q ∈ r.registry.requirements k, q ∈ before

/-- Only the built kinds, the registry, the request and the schedule matter. -/
theorem Sorted.frame {r r' : Run K} (h : r.Sorted)
    (hlisted : r'.schedule.constructed = r.schedule.constructed)
    (hbuilt : r'.constructedKinds = r.constructedKinds) (hregistry : r'.registry = r.registry)
    (hrequested : r'.requestedKinds = r.requestedKinds) : r'.Sorted where
  listed := by rw [hlisted, hbuilt]; exact h.listed
  reachable := by rw [hbuilt, hregistry, hrequested]; exact h.reachable
  sorted := by rw [hbuilt, hregistry]; exact h.sorted

/-- Building a kind that is ready keeps the order. -/
theorem Sorted.built {r : Run K} (h : r.Sorted) {k : K} {top : Bool} (hready : r.Ready k top) :
    (r.built k).Sorted where
  listed := by
    show r.schedule.constructed ++ [k] = (r.constructedKinds.insert k).toList
    rw [KindSet.toList_insert_of_not_mem hready.unbuilt, h.listed]
  reachable x hx := by
    rcases KindSet.mem_insert.1 hx with hx | rfl
    · exact h.reachable x hx
    · exact hready.wanted.reachable
  sorted before x after heq q hq := by
    rw [constructedKinds_built, KindSet.toList_insert_of_not_mem hready.unbuilt] at heq
    rcases snoc_eq_append_cons heq with ⟨rfl, rfl, -⟩ | ⟨rest, -, hsplit⟩
    · exact hready.requirements q hq
    · exact h.sorted before x rest hsplit q hq

/-- Steps build every kind after what it requires. -/
theorem Sorted.steps {m : Manager K E S} {c c' : Stage K S} (h : c.session.run.Sorted)
    (hsteps : Steps m c c') : c'.session.run.Sorted := by
  induction hsteps with
  | refl => exact h
  | tail _ hstep ih =>
    cases hstep with
    | consult hreg => exact ih.frame rfl rfl hreg rfl
    | construct hready _ => exact ih.built hready
    | _ => exact ih.frame rfl rfl rfl rfl

/-- When every requested kind has been built, the built kinds are the reachable ones. -/
theorem Sorted.mem_iff {r : Run K} (h : r.Sorted)
    (hall : ∀ k ∈ r.requestedKinds, k ∈ r.constructedKinds) (x : K) :
    x ∈ r.constructedKinds ↔ r.registry.Reachable r.requestedKinds.toList x := by
  refine ⟨h.reachable x, fun hx => hx.mem_of_closed (· ∈ r.constructedKinds) hall ?_⟩
  intro k hk q hq
  obtain ⟨before, after, hsplit⟩ := List.append_of_mem (KindSet.mem_def.1 hk)
  have hmem := h.sorted before k after hsplit q hq
  rw [KindSet.mem_def, hsplit]
  exact List.mem_append_left _ hmem

/-! ## Nothing stays behind -/

/-- Every kind that the client did not ask for has been released since it last appeared, or will be:
it is a byproduct still to be looked at, or it has a consumer to come. -/
def Draining (c : Stage K (Traced K S)) : Prop :=
  ∀ x, x ∉ c.session.run.requestedKinds →
    Log.Drained c.session.run.registry c.session.manager.log x ∨ .byproduct x ∈ c.tasks ∨
      0 < c.session.run.degrees.degree x

/-- A step whose call, if any, builds nothing keeps it so, provided that a kind which loses its last
consumer or its task has been released. -/
theorem Draining.keep {c c' : Stage K (Traced K S)} (h : Draining c)
    (hrequested : c'.session.run.requestedKinds = c.session.run.requestedKinds)
    (hregistry : c'.session.run.registry = c.session.run.registry)
    (hlog : c'.session.manager.log = c.session.manager.log ∨
      ∃ e : Entry K, e.built? = none ∧ c'.session.manager.log = c.session.manager.log ++ [e])
    (hpending : ∀ x, (.byproduct x ∈ c.tasks ∨ 0 < c.session.run.degrees.degree x) →
      Log.Drained c'.session.run.registry c'.session.manager.log x ∨ .byproduct x ∈ c'.tasks ∨
        0 < c'.session.run.degrees.degree x) : Draining c' := by
  intro x hx
  rw [hrequested] at hx
  rcases h x hx with hdrained | hpend
  · left
    rw [hregistry]
    rcases hlog with hlog | ⟨e, he, hlog⟩
    · rwa [hlog]
    · rw [hlog]
      apply hdrained.snoc
      rintro ⟨k, hk, -⟩
      rw [he] at hk
      cases hk
  · exact hpending x hpend

/-- A kind with a consumer keeps one when no degree falls to zero. -/
theorem degree_withDegree_pos {r : Run K} {k x : K} {n : Nat} (hn : 0 < n)
    (hpos : 0 < r.degrees.degree x) : 0 < (r.withDegree k n).degrees.degree x := by
  rw [degree_withDegree]
  split
  · exact hn
  · exact hpos

omit [DecidableEq K] in
/-- A byproduct is still to be looked at when another task is done. -/
theorem mem_of_byproduct_mem_cons {x : K} {task : Task K} {tasks : List (Task K)}
    (htask : task ≠ .byproduct x) (hmem : .byproduct x ∈ task :: tasks) : .byproduct x ∈ tasks :=
  (List.mem_cons.1 hmem).resolve_left (Ne.symm htask)

/-- Every step of the evaluation phase keeps it so. -/
theorem Draining.step {m : Manager K E S} {slack : K → Nat} {c c' : Stage K (Traced K S)}
    (h : Draining c) (hbalance : Balance slack c) (hstep : Step m.traced c c') : Draining c' := by
  cases hstep with
  | consult hreg => exact h.keep rfl hreg (Or.inl rfl) fun _ hx => Or.inr hx
  | @construct s k top t hready hm =>
    intro x hx
    have hlog : t.log = s.manager.log ++ [⟨.construct k (s.run.mode = .compressed), true⟩] :=
      Traced.log_of_ask_ok hm
    by_cases hk : x = k
    · -- the kind itself has appeared, but it was wanted, so a consumer is still to come
      right; right
      rw [hk]
      exact hbalance.wanted_pos hready.wanted
    · by_cases hby : x ∈ s.run.registry.byproducts k
      · right; left
        exact List.mem_append_left _ (List.mem_map_of_mem hby)
      · rcases h x hx with hdrained | hmem | hpos
        · left
          show Log.Drained s.run.registry t.log x
          rw [hlog]
          apply hdrained.snoc
          rintro ⟨j, hj, hx'⟩
          obtain rfl : k = j := by simpa [Entry.built?] using hj
          exact hx'.elim hk hby
        · exact absurd hmem List.not_mem_nil
        · exact Or.inr (Or.inr hpos)
  | @keepByproduct s k tasks hdeg =>
    refine h.keep rfl rfl (Or.inl rfl) ?_
    intro x hx
    rcases hx with hmem | hpos
    · rcases List.mem_cons.1 hmem with heq | hmem
      · injection heq with heq
        exact Or.inr (Or.inr (Nat.pos_of_ne_zero (heq ▸ hdeg)))
      · exact Or.inr (Or.inl hmem)
    · exact Or.inr (Or.inr hpos)
  | @dropByproduct s k tasks hdeg =>
    refine h.keep rfl rfl (Or.inr ⟨_, rfl, Traced.log_tell ..⟩) ?_
    intro x hx
    rcases hx with hmem | hpos
    · rcases List.mem_cons.1 hmem with heq | hmem
      · injection heq with heq
        subst heq
        exact Or.inl (Log.drained_snoc_discard _ _ _ _)
      · exact Or.inr (Or.inl hmem)
    · exact Or.inr (Or.inr hpos)
  | @releaseLast s k tasks hdeg =>
    refine h.keep rfl rfl (Or.inr ⟨_, rfl, Traced.log_tell ..⟩) ?_
    intro x hx
    by_cases hk : x = k
    · subst hk
      exact Or.inl (Log.drained_snoc_discard _ _ _ _)
    · rcases hx with hmem | hpos
      · exact Or.inr (Or.inl (mem_of_byproduct_mem_cons (by simp) hmem))
      · right; right
        show 0 < (s.run.withDegree k 0).degrees.degree x
        rwa [degree_withDegree, if_neg hk]
  | @releaseToLast s k tasks hdeg _ =>
    refine h.keep rfl rfl (Or.inr ⟨_, rfl, Traced.log_tell ..⟩) ?_
    intro x hx
    rcases hx with hmem | hpos
    · exact Or.inr (Or.inl (mem_of_byproduct_mem_cons (by simp) hmem))
    · exact Or.inr (Or.inr (degree_withDegree_pos Nat.one_pos hpos))
  | @releaseShared s k n tasks hdeg _ =>
    refine h.keep rfl rfl (Or.inl rfl) ?_
    intro x hx
    rcases hx with hmem | hpos
    · right; left
      exact List.mem_append_right _ (mem_of_byproduct_mem_cons (by simp) hmem)
    · exact Or.inr (Or.inr (degree_withDegree_pos (Nat.succ_pos n) hpos))
  | settleSkip _ =>
    refine h.keep rfl rfl (Or.inl rfl) fun x hx => Or.inr (hx.imp_left fun hmem => ?_)
    exact mem_of_byproduct_mem_cons (by simp) hmem
  | settleDone _ hm =>
    refine h.keep rfl rfl (Or.inr ⟨_, rfl, Traced.log_of_ask_ok hm⟩) fun x hx =>
      Or.inr (hx.imp_left ?_)
    intro hmem
    exact mem_of_byproduct_mem_cons (by simp) hmem

/-- Steps leave nothing behind that will not be released. -/
theorem Draining.steps {m : Manager K E S} {slack : K → Nat} {c c' : Stage K (Traced K S)}
    (h : Draining c) (hbalance : Balance slack c) (hsteps : Steps m.traced c c') : Draining c' := by
  induction hsteps with
  | refl => exact h
  | tail hsteps hstep ih => exact ih.step (hbalance.steps hsteps) hstep

/-! ## The end of the run -/

/-- The evaluation phase keeps what the manager's own steps keep. -/
theorem keeps_steps {m : Manager K E S} {I : S → Prop} (hm : m.Willing I)
    {c c' : Stage K (Traced K S)} (hc : I c.session.manager.inner) (hsteps : Steps m.traced c c') :
    I c'.session.manager.inner := by
  induction hsteps with
  | refl => exact hc
  | tail _ hstep ih =>
    cases hstep with
    | @construct s k top t hready h =>
      obtain ⟨t', ht', hI⟩ := Traced.ask_succeeds
        (.construct k (s.run.mode = .compressed)) (hm.construct k _ _ ih)
      cases ht'.symm.trans h
      exact hI
    | dropByproduct h => exact hm.discard _ _ _ ih
    | releaseLast h => exact hm.discard _ _ _ ih
    | releaseToLast h hk => exact hm.unprotect _ _ ih
    | @settleDone s k t tasks halone h =>
      obtain ⟨t', ht', hI⟩ := Traced.ask_succeeds (.compress k) (hm.compress k _ ih)
      cases ht'.symm.trans h
      exact hI
    | _ => exact ih

/-- A manager that refuses nothing does not stop the evaluation. -/
theorem not_stop_of_willing {m : Manager K E S} {I : S → Prop} (hm : m.Willing I)
    {slack : K → Nat} {c : Stage K (Traced K S)} (hc : I c.session.manager.inner)
    (hbalance : Balance slack c) {e : ScheduleError K E} {t : Session K (Traced K S)} :
    ¬ Stop m.traced c e t := by
  intro hstop
  cases hstop with
  | @construct s k top e t hready h =>
    obtain ⟨u, hu, -⟩ := Traced.ask_succeeds
      (.construct k (s.run.mode = .compressed)) (hm.construct k _ _ hc)
    cases hu.symm.trans h
  | @settle s k e t tasks halone h =>
    obtain ⟨u, hu, -⟩ := Traced.ask_succeeds (.compress k) (hm.compress k _ hc)
    cases hu.symm.trans h
  | release hdeg => exact absurd hdeg (Nat.ne_of_gt hbalance.release_pos)

/-- What a run leaves that met no refusal. -/
structure Completed (r : Registry K) (requested : List K) (schedule : Schedule K)
    (t : Session K (Traced K S)) : Prop where
  /-- The reachable kinds were built, … -/
  mem_constructed : ∀ k, k ∈ schedule.constructed ↔ r.Reachable requested k
  /-- … each once … -/
  constructed_once : schedule.constructed.Nodup
  /-- … and after everything that it requires. -/
  constructed_sorted : ∀ before k after, schedule.constructed = before ++ k :: after →
    ∀ q ∈ r.requirements k, q ∈ before
  /-- Only the client is left as a consumer. -/
  degree_eq : ∀ k, r.Reachable requested k →
    t.run.degrees.degree k = if k ∈ requested then 1 else 0
  /-- What the client did not ask for was released after it last appeared. -/
  drained : ∀ x, x ∉ requested → Log.Drained r t.manager.log x
  /-- What the client asked for was built and not released. -/
  kept : ∀ k ∈ requested, k ∈ Log.builtKinds t.manager.log ∧
    ∀ e ∈ t.manager.log, ¬ e.Drops k

/-- A session in which everything reachable has been counted, on top of `slack`, and nothing built. -/
structure Primed (r : Registry K) (requested : List K) (slack : K → Nat)
    (s : Session K (Traced K S)) : Prop where
  sound : Sound r requested s
  phase_eq : s.run.phase = .requested
  sorted : s.run.Sorted
  balance : Balance slack ⟨s, []⟩
  draining : Draining ⟨s, []⟩
  contains_iff : ∀ k, s.run.degrees.Contains k ↔ r.Reachable requested k

/-- A request that has counted all that is reachable primes the session; the counts that were there
before are slack. -/
theorem primed_of_counted {r : Registry K} {requested : List K} {extra : K → Nat}
    {u : Session K (Traced K S)}
    (hsound : Sound r requested { u with run := { u.run with phase := .requested } })
    (hcounted : u.run.Counted fun x => extra x + u.run.requestedKinds.toList.count x)
    (hlive : u.run.live = .zero) (hschedule : u.run.schedule = .empty)
    (hcontains : ∀ k, u.run.degrees.Contains k ↔ r.Reachable requested k) :
    Primed r requested extra { u with run := { u.run with phase := .requested } } := by
  have hempty : u.run.constructedKinds = .empty := hcounted.unbuilt
  have hbalance : Balance extra ⟨u, []⟩ := hcounted.balance hlive
  refine ⟨hsound, rfl, ⟨?_, ?_, ?_⟩, hbalance.frame rfl rfl rfl rfl rfl fun _ => rfl,
    fun x _ => Or.inl ?_, hcontains⟩
  · show u.run.schedule.constructed = u.run.constructedKinds.toList
    rw [hschedule, hempty]
    rfl
  · intro k hk
    have hk' : k ∈ u.run.constructedKinds := hk
    rw [hempty] at hk'
    exact absurd hk' (KindSet.not_mem_empty k)
  · intro before k after heq
    have heq' : u.run.constructedKinds.toList = before ++ k :: after := heq
    rw [hempty] at heq'
    simp at heq'
  · refine Log.drained_of_builtKinds ?_ x
    have hbuilt : Log.builtKinds u.manager.log = u.run.constructedKinds.toList := hsound.safe.built
    rw [hbuilt, hempty]
    rfl

/-- A first request of a manager that refuses nothing primes the session. -/
theorem request_primes {registry : Registry K} {requested : List K} {mode : Mode} {run : Run K}
    (hstart : Run.start registry requested mode = .ok run) {m : Manager K E S} {I : S → Prop}
    (hm : m.Willing I) {s : S} (hs : I s) :
    ∃ t, request m.traced ⟨run, Traced.start s⟩ = .ok () t ∧
      Primed registry requested (fun _ => 0) t ∧ I t.manager.inner := by
  obtain ⟨L⟩ := Registry.nonempty_layers_of_request (start_ok hstart).1
  obtain ⟨u, hrequest, hsteps, hcounted, hcontains⟩ := request_prepared hstart hm.toPrepares hs
  have hsound := ((sound_start hstart s).request L).of_ok hrequest
  have hrun := RequestSteps.run_eq hsteps
  have hfresh : u.run.live = .zero ∧ u.run.schedule = .empty := by
    obtain ⟨-, rfl⟩ := start_ok hstart
    rw [hrun]
    exact ⟨rfl, rfl⟩
  have hu : I u.manager.inner := RequestSteps.keeps_prepared hm.toPrepares.traced hs hsteps
  exact ⟨_, hrequest,
    primed_of_counted hsound (by simpa using hcounted) hfresh.1 hfresh.2 hcontains, hu⟩

/-- What an evaluation leaves that succeeds in a primed session. -/
structure Evaluated (r : Registry K) (requested : List K) (slack : K → Nat) (schedule : Schedule K)
    (t : Session K (Traced K S)) : Prop where
  /-- The reachable kinds were built, each once and after everything that it requires. -/
  mem_constructed : ∀ k, k ∈ schedule.constructed ↔ r.Reachable requested k
  constructed_once : schedule.constructed.Nodup
  constructed_sorted : ∀ before k after, schedule.constructed = before ++ k :: after →
    ∀ q ∈ r.requirements k, q ∈ before
  /-- The client is left as a consumer, and the slack. -/
  degree_eq : ∀ k, t.run.degrees.degree k = (if k ∈ requested then 1 else 0) + slack k
  /-- What the client did not ask for was released after it last appeared, or has slack. -/
  drained : ∀ x, x ∉ requested → Log.Drained r t.manager.log x ∨ 0 < slack x
  /-- What has a consumer left is there. -/
  held : ∀ k, 0 < (if k ∈ requested then 1 else 0) + slack k → t.manager.log.Holds k
  kept : ∀ k ∈ requested, k ∈ Log.builtKinds t.manager.log ∧
    ∀ e ∈ t.manager.log, ¬ e.Drops k

/-- An evaluation that succeeds in a primed session has built and released all that it should. -/
theorem Primed.evaluated {r : Registry K} (L : r.Layers) {requested : List K} {slack : K → Nat}
    {m : Manager K E S} {s t : Session K (Traced K S)} {schedule : Schedule K}
    (h : Primed r requested slack s) (hevaluate : Run.evaluate m.traced s = .ok schedule t) :
    Evaluated r requested slack schedule t := by
  have hsound : Sound r requested t := (h.sound.evaluate L).of_ok hevaluate
  obtain ⟨u, hsteps, hall, rfl, rfl⟩ :=
    (evaluate_follows L m.traced h.phase_eq h.sound.registry_eq).of_ok hevaluate
  have hreg : u.run.registry = r := hsound.registry_eq
  have hmem := hsound.mem_requestedKinds
  have hreq : u.run.requestedKinds = s.run.requestedKinds := Steps.requestedKinds_eq hsteps
  have hsorted : u.run.Sorted := h.sorted.steps hsteps
  have hbalance := h.balance.steps hsteps
  have hbuilt : ∀ k, k ∈ u.run.constructedKinds ↔ r.Reachable requested k := by
    intro k
    rw [hsorted.mem_iff (by rwa [hreq]), hreg]
    exact Registry.reachable_congr hmem
  have hcontains : ∀ k, u.run.degrees.Contains k → r.Reachable requested k := by
    intro k hk
    have hkeys : u.run.degrees.keys = s.run.degrees.keys := Steps.keys_eq hsteps
    apply (h.contains_iff k).1
    show k ∈ s.run.degrees.keys
    rw [← hkeys]
    exact hk
  -- all that is counted has been built, so there is no consumer to come besides the client
  have hdegree : ∀ k, u.run.degrees.degree k = (if k ∈ requested then 1 else 0) + slack k := by
    intro k
    rw [hbalance.degree_of_all_built (fun y hy => (hbuilt y).2 (hcontains y hy))]
    exact congrArg (· + slack k) (if_congr (hmem k) rfl rfl)
  refine ⟨fun k => ?_, ?_, ?_, hdegree, fun x hx => ?_, fun k hk => ?_, fun k hk => ⟨?_, ?_⟩⟩
  · rw [hsorted.listed]
    exact hbuilt k
  · rw [hsorted.listed]
    exact KindSet.nodup _
  · rw [hsorted.listed, ← hreg]
    exact hsorted.sorted
  · rcases (h.draining.steps h.balance hsteps) x (fun hx' => hx ((hmem x).1 hx')) with
      hdrained | hpending | hpos
    · rw [hreg] at hdrained
      exact Or.inl hdrained
    · exact absurd hpending List.not_mem_nil
    · have hdeg := hdegree x
      rw [if_neg hx, Nat.zero_add] at hdeg
      exact Or.inr (hdeg ▸ hpos)
  · rw [← hdegree k] at hk
    apply hsound.safe.held k _ hk
    exact (hbuilt k).2 (hcontains k (DegreeMap.contains_of_degree_pos hk))
  · show k ∈ Log.builtKinds u.manager.log
    have hlog : Log.builtKinds u.manager.log = u.run.constructedKinds.toList := hsound.safe.built
    rw [hlog]
    exact (hbuilt k).2 (Registry.reachable_of_mem hk)
  · rintro ⟨event, accepted⟩ hmem' ⟨intermediate, rfl⟩
    exact (hsound.safe.discards k intermediate accepted hmem').1 ((hmem k).2 hk)

/-- Evaluating a primed session with such a manager completes the run. -/
theorem Primed.evaluate {r : Registry K} (L : r.Layers) {requested : List K} {m : Manager K E S}
    {I : S → Prop} (hm : m.Willing I) {s : Session K (Traced K S)}
    (h : Primed r requested (fun _ => 0) s) (hs : I s.manager.inner) :
    Ends (Run.evaluate m.traced) s (fun schedule t => Completed r requested schedule t)
      fun _ _ => False := by
  cases hevaluate : Run.evaluate m.traced s with
  | error e t =>
    obtain ⟨c, hsteps, hstop⟩ :=
      (evaluate_follows L m.traced h.phase_eq h.sound.registry_eq).of_error hevaluate
    exact absurd hstop (not_stop_of_willing hm (keeps_steps hm hs hsteps) (h.balance.steps hsteps))
  | ok schedule t =>
    have hend := h.evaluated L hevaluate
    exact ends_of_ok hevaluate {
      mem_constructed := hend.mem_constructed
      constructed_once := hend.constructed_once
      constructed_sorted := hend.constructed_sorted
      degree_eq := fun k _ => hend.degree_eq k
      drained := fun x hx => (hend.drained x hx).resolve_right (Nat.lt_irrefl 0)
      kept := hend.kept }

end Run

end TextIndex
