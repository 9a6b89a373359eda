import Mathlib.Logic.Relation
import TextIndex.Plan.Run
import TextIndex.Proofs.Ends
import TextIndex.Proofs.Plan.Choice
import TextIndex.Proofs.Plan.Request

/-!
# The evaluation phase, step by step

The recursion of the evaluation phase decides which kind is built next. What happens then is a short
list of tasks: look at the byproducts, release the requirements, and perhaps compress the kind.
`Step` says what one step of this can do, with everything that is known when it is taken; `Stop` says
how a step can fail.

* `evaluate_follows`: every call of `Run.evaluate` is a sequence of such steps, in which a kind is
  built only when it is not built yet and all its requirements are. It is the kind that a walk from
  the start would come to next (`Run.next`), so the recursion decides nothing that the state of the run
  does not. If the call succeeds, all requested kinds have been built.
* What a step preserves is therefore preserved by the whole phase, also by one that fails.
-/

set_option autoImplicit false

namespace TextIndex.Run

open Relation (ReflTransGen)

variable {K E S : Type}

/-- What remains to be done after a kind has been built. -/
inductive Task (K : Type) where
  /-- Release the byproduct, unless it has consumers. -/
  | byproduct (kind : K)
  /-- Take one consumer away. -/
  | release (kind : K)
  /-- Compress the kind if only the client needs it. -/
  | settle (kind : K)
deriving DecidableEq

/-- A session in the evaluation phase and the tasks that it has to do before the next kind. -/
structure Stage (K S : Type) where
  session : Session K S
  tasks : List (Task K)

variable [DecidableEq K]

/-- What is to be done last after `k` has been built. -/
def lastTasks (r : Run K) (top : Bool) (k : K) : List (Task K) :=
  if r.mode = .delayed ∧ top = true then [.settle k] else []

/-- What is to be done after `k` has been built. -/
def tasksAfter (r : Run K) (top : Bool) (k : K) : List (Task K) :=
  (r.registry.byproducts k).map .byproduct ++
    ((r.registry.requirements k).map .release ++ r.lastTasks top k)

/-- Why a kind is built: the client's list leads to it, or a reachable kind that has not been built
requires it. -/
def Wanted (r : Run K) (k : K) : Bool → Prop
  | true => k ∈ r.requestedKinds
  | false => ∃ j, j ∉ r.constructedKinds ∧
      r.registry.Reachable r.requestedKinds.toList j ∧ k ∈ r.registry.requirements j

/-- A kind may be built: it has not been, all its requirements have been, and it is wanted. -/
structure Ready (r : Run K) (k : K) (top : Bool) : Prop where
  unbuilt : k ∉ r.constructedKinds
  requirements : ∀ q ∈ r.registry.requirements k, q ∈ r.constructedKinds
  wanted : r.Wanted k top

/-- The kind that a walk below `k` builds next. -/
def nextBelow (r : Run K) (depth : Nat) (top : Bool) (k : K) : Option (K × Bool) :=
  r.costs.nextBelow r.constructedKinds depth top k

/-- The kind that is built next, and whether the client's own list leads to it. -/
def next (r : Run K) : Option (K × Bool) :=
  r.costs.next r.constructedKinds r.requestedKinds.toList

/-- A requested kind is left with its client alone, and its compression has not been asked for. -/
def Alone (r : Run K) (k : K) : Prop :=
  k ∈ r.requestedKinds ∧ r.degrees.degree k = 1 ∧ k ∉ r.compressedKinds

instance (r : Run K) (k : K) : Decidable (r.Alone k) := by
  unfold Alone
  infer_instance

/-- The run after the degree of `k` has been set. -/
def withDegree (r : Run K) (k : K) (n : Nat) : Run K :=
  { r with degrees := ⟨r.degrees.counts.put k n⟩ }

/-- Setting a degree leaves the others alone. -/
theorem degree_withDegree (r : Run K) (k x : K) (n : Nat) :
    (r.withDegree k n).degrees.degree x = if x = k then n else r.degrees.degree x :=
  DegreeMap.degree_put

/-- What one step of the evaluation phase does. -/
inductive Step (m : Manager K E S) : Stage K S → Stage K S → Prop where
  | consult {s : Session K S} {costs : CostTable K} (h : costs.registry = s.run.registry)
      (hsame : ∀ ks, costs.siblings ks = s.run.costs.siblings ks) :
      Step m ⟨s, []⟩ ⟨{ s with run := { s.run with costs } }, []⟩
  | construct {s : Session K S} {k : K} {top : Bool} {t : S} (hready : s.run.Ready k top)
      (h : m.construct k (s.run.mode = .compressed) s.manager = .ok () t)
      (hnext : s.run.next = some (k, top)) :
      Step m ⟨s, []⟩ ⟨⟨s.run.built k, t⟩, s.run.tasksAfter top k⟩
  | keepByproduct {s : Session K S} {k : K} {tasks : List (Task K)}
      (h : s.run.degrees.degree k ≠ 0) : Step m ⟨s, .byproduct k :: tasks⟩ ⟨s, tasks⟩
  | dropByproduct {s : Session K S} {k : K} {tasks : List (Task K)}
      (h : s.run.degrees.degree k = 0) :
      Step m ⟨s, .byproduct k :: tasks⟩
        ⟨⟨{ s.run with schedule := s.run.schedule.addDiscarded k },
          m.discard k true s.manager⟩, tasks⟩
  | releaseLast {s : Session K S} {k : K} {tasks : List (Task K)}
      (h : s.run.degrees.degree k = 1) :
      Step m ⟨s, .release k :: tasks⟩
        ⟨⟨(s.run.withDegree k 0).released k,
          m.discard k (k ∉ s.run.requestedKinds) s.manager⟩, tasks⟩
  | releaseToLast {s : Session K S} {k : K} {tasks : List (Task K)}
      (h : s.run.degrees.degree k = 2) (hk : k ∉ s.run.requestedKinds) :
      Step m ⟨s, .release k :: tasks⟩
        ⟨⟨{ s.run.withDegree k 1 with protectedKinds := s.run.protectedKinds.erase k },
          m.unprotect k s.manager⟩, tasks⟩
  | releaseShared {s : Session K S} {k : K} {n : Nat} {tasks : List (Task K)}
      (h : s.run.degrees.degree k = n + 2) (hk : n ≠ 0 ∨ k ∈ s.run.requestedKinds) :
      Step m ⟨s, .release k :: tasks⟩
        ⟨{ s with run := s.run.withDegree k (n + 1) },
          (if s.run.mode = .delayed then [.settle k] else []) ++ tasks⟩
  | settleSkip {s : Session K S} {k : K} {tasks : List (Task K)} (h : ¬ s.run.Alone k) :
      Step m ⟨s, .settle k :: tasks⟩ ⟨s, tasks⟩
  | settleDone {s : Session K S} {k : K} {t : S} {tasks : List (Task K)} (halone : s.run.Alone k)
      (h : m.compress k s.manager = .ok () t) :
      Step m ⟨s, .settle k :: tasks⟩
        ⟨⟨{ s.run with
            compressedKinds := s.run.compressedKinds.insert k
            schedule := s.run.schedule.addCompressed k }, t⟩, tasks⟩

/-- How a step of the evaluation phase can fail. -/
inductive Stop (m : Manager K E S) :
    Stage K S → ScheduleError K E → Session K S → Prop where
  | construct {s : Session K S} {k : K} {top : Bool} {e : E} {t : S} (hready : s.run.Ready k top)
      (h : m.construct k (s.run.mode = .compressed) s.manager = .error e t) :
      Stop m ⟨s, []⟩ (.manager k e) { s with manager := t }
  | settle {s : Session K S} {k : K} {e : E} {t : S} {tasks : List (Task K)}
      (halone : s.run.Alone k) (h : m.compress k s.manager = .error e t) :
      Stop m ⟨s, .settle k :: tasks⟩ (.manager k e)
        ⟨{ s.run with compressedKinds := s.run.compressedKinds.insert k }, t⟩
  | release {s : Session K S} {k : K} {cause : InvariantError K} {tasks : List (Task K)}
      (h : s.run.degrees.degree k = 0) :
      Stop m ⟨s, .release k :: tasks⟩ (.invariant cause) s

/-- Any number of steps. -/
abbrev Steps (m : Manager K E S) : Stage K S → Stage K S → Prop := ReflTransGen (Step m)

/-! ## What the steps leave alone -/

/-- No step changes the registry. -/
theorem Steps.registry_eq {m : Manager K E S} {c c' : Stage K S} (h : Steps m c c') :
    c'.session.run.registry = c.session.run.registry := by
  induction h with
  | refl => rfl
  | tail _ hstep ih =>
    rw [← ih]
    cases hstep <;> first | rfl | assumption

/-- Steps of an evaluation keep the request. -/
theorem Steps.requestedKinds_eq {m : Manager K E S} {c c' : Stage K S} (h : Steps m c c') :
    c'.session.run.requestedKinds = c.session.run.requestedKinds := by
  induction h with
  | refl => rfl
  | tail _ hstep ih =>
    rw [← ih]
    cases hstep <;> rfl

/-- Steps of an evaluation keep the mode. -/
theorem Steps.mode_eq {m : Manager K E S} {c c' : Stage K S} (h : Steps m c c') :
    c'.session.run.mode = c.session.run.mode := by
  induction h with
  | refl => rfl
  | tail _ hstep ih =>
    rw [← ih]
    cases hstep <;> rfl

/-- No step counts a kind for the first time. -/
theorem Steps.keys_eq {m : Manager K E S} {c c' : Stage K S} (h : Steps m c c') :
    c'.session.run.degrees.keys = c.session.run.degrees.keys := by
  have hput : ∀ {r : Run K} {k : K} {n v : Nat}, r.degrees.degree k = n + 1 →
      (r.withDegree k v).degrees.keys = r.degrees.keys := fun hdeg =>
    DegreeMap.keys_put_of_contains (DegreeMap.contains_of_degree_pos (by omega))
  induction h with
  | refl => rfl
  | tail _ hstep ih =>
    rw [← ih]
    cases hstep with
    | releaseLast hdeg => exact hput hdeg
    | releaseToLast hdeg _ => exact hput hdeg
    | releaseShared hdeg _ => exact hput hdeg
    | _ => rfl

/-- The phase ends only after the last step. -/
theorem Steps.phase_eq {m : Manager K E S} {c c' : Stage K S} (h : Steps m c c') :
    c'.session.run.phase = c.session.run.phase := by
  induction h with
  | refl => rfl
  | tail _ hstep ih =>
    rw [← ih]
    cases hstep <;> rfl

/-- Consulting the cost table changes none of its answers. -/
theorem Steps.siblings_eq {m : Manager K E S} {c c' : Stage K S} (h : Steps m c c')
    (ks : List K) : c'.session.run.costs.siblings ks = c.session.run.costs.siblings ks := by
  induction h with
  | refl => rfl
  | tail _ hstep ih =>
    rw [← ih]
    cases hstep with
    | consult _ hsame => exact hsame ks
    | _ => rfl

/-- Nor does a step that fails change the registry, the requested kinds or the phase. -/
theorem Stop.keeps {m : Manager K E S} {c : Stage K S} {e : ScheduleError K E} {t : Session K S}
    (h : Stop m c e t) :
    t.run.registry = c.session.run.registry ∧
      t.run.requestedKinds = c.session.run.requestedKinds ∧ t.run.phase = c.session.run.phase := by
  cases h <;> exact ⟨rfl, rfl, rfl⟩

/-- A step that fails keeps the mode. -/
theorem Stop.mode_eq {m : Manager K E S} {c : Stage K S} {e : ScheduleError K E}
    {t : Session K S} (h : Stop m c e t) : t.run.mode = c.session.run.mode := by
  cases h <;> rfl

/-- What has been built stays built. -/
theorem Steps.built_mono {m : Manager K E S} {c c' : Stage K S} (h : Steps m c c') {k : K}
    (hk : k ∈ c.session.run.constructedKinds) : k ∈ c'.session.run.constructedKinds := by
  induction h with
  | refl => exact hk
  | tail _ hstep ih =>
    cases hstep
    case construct => exact KindSet.mem_insert.2 (Or.inl ih)
    all_goals exact ih

/-- What the steps build is built after all that it requires. -/
theorem Steps.requirements_built {m : Manager K E S} {c c' : Stage K S} (h : Steps m c c') {k q : K}
    (hnew : k ∉ c.session.run.constructedKinds) (hk : k ∈ c'.session.run.constructedKinds)
    (hq : q ∈ c.session.run.registry.requirements k) :
    q ∈ c'.session.run.constructedKinds := by
  induction h with
  | refl => exact absurd hk hnew
  | tail hsteps hstep ih =>
    rw [← Steps.registry_eq hsteps] at hq
    cases hstep
    case construct hready _ _ =>
      rcases KindSet.mem_insert.1 hk with hk | rfl
      · exact KindSet.mem_insert.2 (Or.inl (ih hk))
      · exact KindSet.mem_insert.2 (Or.inl (hready.requirements q hq))
    all_goals exact ih hk

/-! ## Programs that follow the steps -/

/-- Started with the tasks `before`, the program goes through single steps until the tasks `after`
are left, where `Q` holds, or until a step fails. -/
def Follows (m : Manager K E S) (x : SessionM K E S Unit) (before after : List (Task K))
    (s : Session K S) (Q : Session K S → Prop) : Prop :=
  Ends x s (fun _ t => Steps m ⟨s, before⟩ ⟨t, after⟩ ∧ Q t)
    (fun e t => ∃ c, Steps m ⟨s, before⟩ c ∧ Stop m c e t)

/-- A program that does nothing takes no step. -/
theorem follows_pure {m : Manager K E S} {tasks : List (Task K)} {s : Session K S}
    {Q : Session K S → Prop} (h : Q s) : Follows m (pure ()) tasks tasks s Q := ⟨.refl, h⟩

/-- Steps that were made before the program started count with its own. -/
theorem Follows.after {m : Manager K E S} {x : SessionM K E S Unit}
    {a b c : List (Task K)} {s t : Session K S} {Q : Session K S → Prop}
    (h : Follows m x b c t Q) (hsteps : Steps m ⟨s, a⟩ ⟨t, b⟩) :
    Ends x t (fun _ u => Steps m ⟨s, a⟩ ⟨u, c⟩ ∧ Q u)
      (fun e u => ∃ d, Steps m ⟨s, a⟩ d ∧ Stop m d e u) := by
  refine Ends.mono h ?_ ?_
  · rintro - u ⟨hsteps', hu⟩
    exact ⟨hsteps.trans hsteps', hu⟩
  · rintro e u ⟨d, hsteps', hstop⟩
    exact ⟨d, hsteps.trans hsteps', hstop⟩

/-- One program after the other. -/
theorem Follows.bind {m : Manager K E S} {x y : SessionM K E S Unit}
    {a b c : List (Task K)} {s : Session K S} {P Q : Session K S → Prop}
    (hx : Follows m x a b s P)
    (hy : ∀ t, Steps m ⟨s, a⟩ ⟨t, b⟩ → P t → Follows m y b c t Q) :
    Follows m (x >>= fun _ => y) a c s Q := by
  unfold Follows
  rw [ends_bind]
  refine hx.mono ?_ (fun _ _ h => h)
  rintro - t ⟨hsteps, ht⟩
  exact (hy t hsteps ht).after hsteps

/-- Doing one task, during which nothing is built. -/
def Does (m : Manager K E S) (x : SessionM K E S Unit) (task : Task K) : Prop :=
  ∀ (s : Session K S) (tasks : List (Task K)),
    Follows m x (task :: tasks) tasks s fun t => t.run.constructedKinds = s.run.constructedKinds

/-- A task for each member of a list, done in its order. -/
theorem follows_forM {m : Manager K E S} {f : K → SessionM K E S Unit} {task : K → Task K}
    (hf : ∀ k, Does m (f k) (task k)) (ks : List K) (tasks : List (Task K)) (s : Session K S) :
    Follows m (ks.forM f) (ks.map task ++ tasks) tasks s
      fun t => t.run.constructedKinds = s.run.constructedKinds := by
  induction ks generalizing s with
  | nil => exact follows_pure rfl
  | cons k ks ih => exact (hf k s _).bind fun t _ ht => ht ▸ ih t

/-- Looking at a byproduct does what its task says. -/
theorem does_discardByproduct (m : Manager K E S) (k : K) :
    Does m (discardByproduct m k) (.byproduct k) := by
  intro s tasks
  unfold Follows discardByproduct
  simp only [ends_bind, ends_get, ends_ite, ends_tell, ends_update, ends_pure]
  exact ⟨fun h => ⟨.single (.dropByproduct h), trivial⟩, fun h => ⟨.single (.keepByproduct h), trivial⟩⟩

/-- Settling a kind does what its task says. -/
theorem does_compressIfAlone (m : Manager K E S) (k : K) :
    Does m (compressIfAlone m k) (.settle k) := by
  intro s tasks
  unfold Follows compressIfAlone
  simp only [ends_bind, ends_get, ends_ite, ends_ask, ends_update, ends_pure]
  refine ⟨fun halone => ⟨fun t ht => ?_, fun e t ht => ?_⟩, fun h => ?_⟩
  · exact ⟨.single (.settleDone halone ht), trivial⟩
  · exact ⟨_, .refl, .settle halone ht⟩
  · exact ⟨.single (.settleSkip h), trivial⟩

/-- A kind that the client did not ask for is never compressed. -/
theorem compressIfAlone_of_not_requested {m : Manager K E S} {k : K} {s : Session K S}
    (h : k ∉ s.run.requestedKinds) : compressIfAlone m k s = .ok () s := by
  unfold compressIfAlone
  show (if s.run.Alone k then _ else pure () : SessionM K E S Unit) s = _
  rw [if_neg fun halone => h halone.1]
  rfl

/-- Releasing a kind does what its task says. -/
theorem does_release (m : Manager K E S) (k : K) : Does m (release m k) (.release k) := by
  intro s tasks
  unfold Follows release
  cases hdeg : s.run.degrees.decrement k with
  | error cause =>
    simp only [ends_bind, ends_get, hdeg, ends_throw]
    refine ⟨_, .refl, .release ?_⟩
    by_contra hpos
    obtain ⟨n, hn⟩ := Nat.exists_eq_succ_of_ne_zero hpos
    rw [DegreeMap.decrement_of_degree hn] at hdeg
    cases hdeg
  | ok degrees =>
    obtain ⟨n, hn, rfl⟩ := DegreeMap.degree_of_decrement hdeg
    have hset : (⟨s.run.degrees.counts.put k n⟩ : DegreeMap K).degree k = n := by
      rw [DegreeMap.degree_put, if_pos rfl]
    simp only [ends_bind, ends_get, hdeg, ends_update, hset]
    cases n with
    | zero =>
      simp only [if_true, ends_bind, ends_tell, ends_update, Nat.zero_ne_one, false_and, if_false,
        ends_pure]
      exact ⟨.single (.releaseLast hn), rfl⟩
    | succ n =>
      simp only [Nat.add_one_ne_zero, if_false]
      by_cases hk : n + 1 = 1 ∧ k ∉ s.run.requestedKinds
      · -- the last consumer is not the client: nothing is compressed
        simp only [if_pos hk, ends_ite, ends_bind, ends_update, ends_tell]
        obtain rfl : n = 0 := by omega
        have hstep : Step m ⟨s, .release k :: tasks⟩ _ := .releaseToLast hn hk.2
        exact ⟨fun _ => ends_of_ok (compressIfAlone_of_not_requested hk.2) ⟨.single hstep, rfl⟩,
          fun _ => ⟨.single hstep, trivial⟩⟩
      · have hshared : n ≠ 0 ∨ k ∈ s.run.requestedKinds := by
          by_contra hno
          exact hk ⟨by omega, fun hmem => hno (Or.inr hmem)⟩
        have hstep : Step m ⟨s, .release k :: tasks⟩ _ := .releaseShared hn hshared
        simp only [if_neg hk, ends_ite, ends_bind, ends_pure]
        constructor
        · intro hmode
          rw [if_pos hmode] at hstep
          exact (does_compressIfAlone m k _ tasks).after (.single hstep)
        · intro hmode
          rw [if_neg hmode] at hstep
          exact ⟨.single hstep, trivial⟩

/-! ## Building -/

/-- Building a kind that is ready, with the tasks that it brings up to a last one. -/
theorem follows_constructNow (m : Manager K E S) {k : K} {top : Bool} {s : Session K S}
    (hready : s.run.Ready k top) (hnext : s.run.next = some (k, top)) :
    Follows m (constructNow m k) [] (s.run.lastTasks top k) s
      fun t => t.run.constructedKinds = s.run.constructedKinds.insert k := by
  unfold Follows constructNow
  rw [ends_bind, ends_get, ends_bind, ends_ask]
  refine ⟨?_, fun e t ht => ⟨_, .refl, .construct hready ht⟩⟩
  intro t ht
  rw [ends_bind, ends_update]
  have hstep : Step m ⟨s, []⟩ _ := .construct hready ht hnext
  have hloops := (follows_forM (does_discardByproduct m) (s.run.registry.byproducts k)
      ((s.run.registry.requirements k).map .release ++ s.run.lastTasks top k)
      ⟨s.run.built k, t⟩).bind
    fun u _ hu => hu ▸ follows_forM (does_release m) (s.run.registry.requirements k)
      (s.run.lastTasks top k) u
  exact hloops.after (.single hstep)

/-- The compression that follows a kind of the client's list. -/
theorem follows_lastTasks (m : Manager K E S) {k : K} {top : Bool} {r : Run K} {s : Session K S}
    (hmode : s.run.mode = r.mode) :
    Follows m (do if (← get).run.mode = .delayed ∧ top = true then compressIfAlone m k)
      (r.lastTasks top k) [] s fun t => t.run.constructedKinds = s.run.constructedKinds := by
  unfold Follows lastTasks
  rw [ends_bind, ends_get, hmode, ends_ite]
  constructor
  · intro h
    rw [if_pos h]
    exact does_compressIfAlone m k s []
  · intro h
    rw [if_neg h]
    exact ⟨.refl, rfl⟩

/-- Building a kind that is ready, with all the tasks that it brings. -/
theorem follows_constructReady (m : Manager K E S) {k : K} {top : Bool} {s : Session K S}
    (hready : s.run.Ready k top) (hnext : s.run.next = some (k, top)) :
    Follows m (do
        constructNow m k
        if (← get).run.mode = .delayed ∧ top = true then compressIfAlone m k)
      [] [] s fun t => ∀ x, x ∈ t.run.constructedKinds ↔ x ∈ s.run.constructedKinds ∨ x = k := by
  apply (follows_constructNow m hready hnext).bind
  intro u hsteps hu
  refine (follows_lastTasks m hsteps.mode_eq).mono ?_ (fun _ _ h => h)
  rintro - v ⟨hsteps', hv⟩
  refine ⟨hsteps', ?_⟩
  intro x
  rw [hv, hu, KindSet.mem_insert]

/-- What building a list of kinds achieves: they are built, and only what they lead to. -/
structure Builds (r : Registry K) (ks : List K) (s t : Session K S) : Prop where
  built : ∀ k ∈ ks, k ∈ t.run.constructedKinds
  only : ∀ x, x ∈ t.run.constructedKinds → x ∈ s.run.constructedKinds ∨ r.Reachable ks x

/-- A kind that is built after what it requires. -/
theorem Builds.kind {r : Registry K} {ks : List K} {k : K} {s t u : Session K S}
    (h : Builds r ks s t) (hks : ∀ q ∈ ks, q ∈ r.requirements k)
    (hu : ∀ x, x ∈ u.run.constructedKinds ↔ x ∈ t.run.constructedKinds ∨ x = k) :
    Builds r [k] s u where
  built x hx := (hu x).2 (Or.inr (List.mem_singleton.1 hx))
  only x hx := by
    rcases (hu x).1 hx with hx | rfl
    · rcases h.only x hx with hx | ⟨q, hq, hqx⟩
      · exact Or.inl hx
      · exact Or.inr ⟨k, List.mem_singleton_self k, .head (hks q hq) hqx⟩
    · exact Or.inr ⟨x, List.mem_singleton_self x, .refl⟩

/-- Building kinds one after the other. -/
theorem follows_builds {r : Registry K} {m : Manager K E S} (build : K → SessionM K E S Unit)
    (ks : List K) {s : Session K S}
    (hbuild : ∀ done k rest, ks = done ++ k :: rest → ∀ {t : Session K S},
      Steps m ⟨s, []⟩ ⟨t, []⟩ → (∀ x ∈ done, x ∈ t.run.constructedKinds) →
      (∀ x, x ∈ t.run.constructedKinds → x ∈ s.run.constructedKinds ∨ r.Reachable ks x) →
      Follows m (build k) [] [] t fun u => Builds r [k] t u) :
    Follows m (ks.forM build) [] [] s fun t => Builds r ks s t := by
  refine (ends_forM (fun done t => Steps m ⟨s, []⟩ ⟨t, []⟩ ∧
      (∀ k ∈ done, k ∈ t.run.constructedKinds) ∧
      ∀ x, x ∈ t.run.constructedKinds → x ∈ s.run.constructedKinds ∨ r.Reachable ks x)
    ⟨.refl, by simp, fun x hx => Or.inl hx⟩ ?_).mono
    (fun _ t h => ⟨h.1, h.2.1, h.2.2⟩) (fun _ _ h => h)
  intro done k rest t hsplit ⟨hsteps, hdone, honly⟩
  have hk : k ∈ ks := by rw [hsplit]; simp
  refine (hbuild done k rest hsplit hsteps hdone honly).mono ?_ ?_
  · rintro - u ⟨hsteps', hbuilt⟩
    refine ⟨hsteps.trans hsteps', ?_, ?_⟩
    · intro x hx
      rcases List.mem_append.1 hx with hx | hx
      · exact hsteps'.built_mono (hdone x hx)
      · exact hbuilt.built x hx
    · intro x hx
      rcases hbuilt.only x hx with hx | ⟨j, hj, hjx⟩
      · exact honly x hx
      · exact Or.inr ⟨k, hk, List.mem_singleton.1 hj ▸ hjx⟩
  · rintro e u ⟨c, hsteps', hstop⟩
    exact ⟨c, hsteps.trans hsteps', hstop⟩

/-- What is built does not become unwanted while only other kinds are built. -/
theorem Wanted.mono {r r' : Run K} {k : K} {top : Bool} (h : r.Wanted k top)
    (hreg : r'.registry = r.registry) (hreq : r'.requestedKinds = r.requestedKinds)
    (hbuilt : ∀ j, k ∈ r.registry.requirements j → j ∈ r'.constructedKinds →
      j ∈ r.constructedKinds) :
    r'.Wanted k top := by
  cases top with
  | true =>
    show k ∈ r'.requestedKinds
    rw [hreq]
    exact h
  | false =>
    obtain ⟨j, hj, hreach, hk⟩ := h
    refine ⟨j, fun hmem => hj (hbuilt j hk hmem), ?_, ?_⟩
    · rwa [hreg, hreq]
    · rwa [hreg]

/-- From here on, whatever is next below `k` is next on the whole. -/
def Leads (m : Manager K E S) (depth : Nat) (top : Bool) (k : K) (s : Session K S) : Prop :=
  ∀ (t : Session K S) (answer : K × Bool), Steps m ⟨s, []⟩ ⟨t, []⟩ →
    t.run.nextBelow depth top k = some answer → t.run.next = some answer

/-- Where a kind leads, its first requirement that has not been built leads as well. -/
theorem Leads.sibling {m : Manager K E S} {depth : Nat} {top : Bool} {k q : K}
    {done rest : List K} {s t : Session K S} (h : Leads m (depth + 1) top k s)
    (hsteps : Steps m ⟨s, []⟩ ⟨t, []⟩) (hk : k ∉ t.run.constructedKinds)
    (hsplit : s.run.costs.siblings (s.run.registry.requirements k) = done ++ q :: rest)
    (hdone : ∀ x ∈ done, x ∈ t.run.constructedKinds) : Leads m depth false q t := by
  intro u answer hsteps' hq
  have hall : Steps m ⟨s, []⟩ ⟨u, []⟩ := hsteps.trans hsteps'
  have horder : u.run.costs.siblings (u.run.registry.requirements k) = done ++ q :: rest := by
    rw [hall.registry_eq, hall.siblings_eq, hsplit]
  apply h u answer hall
  refine CostTable.nextBelow_of_sibling ?_ horder (fun x hx => hsteps'.built_mono (hdone x hx)) hq top
  intro hbuilt
  -- `k` cannot have been built before `q`, and `q` is still to come
  have hqk : q ∈ t.run.registry.requirements k := by
    rw [hsteps.registry_eq, ← (CostTable.siblings_perm s.run.costs _).mem_iff, hsplit]
    simp
  have hqu := hsteps'.requirements_built hk hbuilt hqk
  cases (CostTable.nextBelow_of_built hqu depth false).symm.trans hq

/-- Building one kind: everything that it leads to is built, and only that. -/
theorem follows_constructKind {r : Registry K} (L : r.Layers) (m : Manager K E S) (depth : Nat) :
    ∀ {k : K} {top : Bool} {s : Session K S}, L.level k < depth → s.run.registry = r →
      s.run.Wanted k top → r.Reachable s.run.requestedKinds.toList k → Leads m depth top k s →
      Follows m (constructKind m depth top k) [] [] s fun t => Builds r [k] s t := by
  -- what a kind requires has a lower level, so the depth that is left suffices for it
  induction depth with
  | zero =>
    intro k top s hlevel
    exact absurd hlevel (Nat.not_lt_zero _)
  | succ depth ih =>
    intro k top s hlevel hreg hwanted hreach hleads
    subst hreg
    unfold Follows constructKind
    rw [ends_bind, ends_get, ends_ite]
    refine ⟨fun hnew => ?_, fun hold => ⟨.refl, ?_, fun x hx => Or.inl hx⟩⟩
    · rw [ends_bind, ends_consult]
      have hperm := CostTable.dependencyOrder_perm k s.run.costs
      have hcosts := CostTable.registry_dependencyOrder k s.run.costs
      have hconsult : Step m ⟨s, []⟩ _ :=
        .consult hcosts (CostTable.siblings_constructionOrder (t := s.run.costs) L _)
      have horder : s.run.costs.siblings (s.run.registry.requirements k) =
        (CostTable.dependencyOrder k s.run.costs).1 := rfl
      generalize (CostTable.dependencyOrder k s.run.costs).1 = order at hperm horder ⊢
      generalize (CostTable.dependencyOrder k s.run.costs).2 = costs at hcosts hconsult ⊢
      have hreq : ∀ q, q ∈ order ↔ q ∈ s.run.registry.requirements k := fun q => hperm.mem_iff
      -- neither `k` nor what requires it is built while its requirements are
      have hkeep : ∀ {t : Session K S} (j : K),
          (∀ x, x ∈ t.run.constructedKinds → x ∈ s.run.constructedKinds ∨
            s.run.registry.Reachable order x) →
          ReflTransGen s.run.registry.Needs j k → j ∈ t.run.constructedKinds →
          j ∈ s.run.constructedKinds := by
        intro t j honly hjk hj
        rcases honly j hj with hj | ⟨q, hq, hqj⟩
        · exact hj
        · exact absurd (hqj.trans hjk) (L.not_reachable_requirement ((hreq q).1 hq))
      have hloop := follows_builds (r := s.run.registry) (m := m)
        (constructKind m depth false) order
        (s := { s with run := { s.run with costs } })
        (by
          intro done q rest hsplit t hsteps hdone honly
          have hreg' := hsteps.registry_eq.trans hcosts
          have hreq' : t.run.requestedKinds = s.run.requestedKinds := hsteps.requestedKinds_eq
          have hqk := (hreq q).1 (by rw [hsplit]; simp)
          have hnew' : k ∉ t.run.constructedKinds := fun hk => hnew (hkeep k honly .refl hk)
          refine ih (by have := L.level_lt hqk; omega) hreg' ⟨k, hnew', ?_, ?_⟩ ?_ ?_
          · rwa [hreg', hreq']
          · rwa [hreg']
          · rw [hreq']
            exact hreach.needs hqk
          · exact hleads.sibling (.head hconsult hsteps) hnew' (horder.trans hsplit) hdone)
      have hall := hloop.bind (y := do
          constructNow m k
          if (← get).run.mode = .delayed ∧ top = true then compressIfAlone m k)
        (c := []) (Q := fun u => Builds s.run.registry [k] s u)
        (by
          intro t hsteps hbuilds
          have hreg' := hsteps.registry_eq.trans hcosts
          have hready : t.run.Ready k top := {
            unbuilt := fun hk => hnew (hkeep k hbuilds.only .refl hk)
            requirements := fun q hq => hbuilds.built q ((hreq q).2 (by rwa [hreg'] at hq))
            wanted := hwanted.mono hreg' hsteps.requestedKinds_eq
              fun j hkj hj => hkeep j hbuilds.only (.single hkj) hj }
          have hnext : t.run.next = some (k, top) :=
            hleads t (k, top) (.head hconsult hsteps)
              (CostTable.nextBelow_of_requirements hready.unbuilt hready.requirements depth top)
          refine (follows_constructReady m hready hnext).mono ?_ (fun _ _ h => h)
          rintro - u ⟨hsteps', hu⟩
          have hbuilds' : Builds s.run.registry order s t := ⟨hbuilds.built, hbuilds.only⟩
          exact ⟨hsteps', hbuilds'.kind (fun q hq => (hreq q).1 hq) hu⟩)
      exact hall.after (.single hconsult)
    · intro x hx
      rw [List.mem_singleton.1 hx]
      exact not_not.1 hold

/-- The turn of a requested kind, after those before it have been built. -/
theorem follows_turn (m : Manager K E S) {s t : Session K S} (L : s.run.registry.Layers) {k : K}
    {done rest : List K}
    (hsplit : s.run.costs.siblings s.run.requestedKinds.toList = done ++ k :: rest)
    (hsteps : Steps m ⟨s, []⟩ ⟨t, []⟩) (hdone : ∀ x ∈ done, x ∈ t.run.constructedKinds) :
    Follows m (constructKind m s.run.registry.depth true k) [] [] t
      fun u => Builds s.run.registry [k] t u := by
  have hreq' : t.run.requestedKinds = s.run.requestedKinds := hsteps.requestedKinds_eq
  have hk : k ∈ s.run.requestedKinds.toList :=
    (CostTable.siblings_perm s.run.costs _).mem_iff.1 (by rw [hsplit]; simp)
  refine follows_constructKind L m _ (L.level_lt_depth k) hsteps.registry_eq ?_ ?_ ?_
  · show k ∈ t.run.requestedKinds
    rwa [hreq']
  · rw [hreq']
    exact Registry.reachable_of_mem hk
  · intro u answer hsteps' hanswer
    have hall : Steps m ⟨s, []⟩ ⟨u, []⟩ := hsteps.trans hsteps'
    have hroots : u.run.costs.siblings u.run.requestedKinds.toList = done ++ k :: rest := by
      rw [hall.requestedKinds_eq, hall.siblings_eq, hsplit]
    rw [← hall.registry_eq] at hanswer
    exact CostTable.findSome?_siblings hroots (fun x hx => hsteps'.built_mono (hdone x hx)) hanswer

/-- The turns of the requested kinds in front. They may begin after some steps in which nothing was
built. -/
theorem follows_turns (m : Manager K E S) {s s' : Session K S} (L : s.run.registry.Layers)
    {front back : List K}
    (hsplit : s.run.costs.siblings s.run.requestedKinds.toList = front ++ back)
    (hstart : Steps m ⟨s, []⟩ ⟨s', []⟩) :
    Follows m (front.forM (constructKind m s.run.registry.depth true)) [] [] s'
      fun t => Builds s.run.registry front s' t := by
  refine follows_builds (constructKind m s.run.registry.depth true) front ?_
  intro done k rest hfront t hsteps hdone _
  have hturn : s.run.costs.siblings s.run.requestedKinds.toList = done ++ k :: (rest ++ back) := by
    rw [hsplit, hfront, List.append_assoc, List.cons_append]
  exact follows_turn m L hturn (hstart.trans hsteps) hdone

/-- Every call of the evaluation phase goes through single steps. If it succeeds, everything requested
has been built. -/
theorem evaluate_follows {r : Registry K} (L : r.Layers) (m : Manager K E S) {s : Session K S}
    (hphase : s.run.phase = .requested) (hreg : s.run.registry = r) :
    Ends (evaluate m) s
      (fun schedule t => ∃ u, Steps m ⟨s, []⟩ ⟨u, []⟩ ∧
        (∀ k ∈ s.run.requestedKinds, k ∈ u.run.constructedKinds) ∧ schedule = u.run.schedule ∧
        t = { u with run := { u.run with phase := .evaluated, schedule := .empty } })
      (fun e t => ∃ c, Steps m ⟨s, []⟩ c ∧ Stop m c e t) := by
  subst hreg
  unfold evaluate
  simp only [ends_bind, ends_get]
  rw [hphase]
  simp only [ends_bind, ends_get, ends_consult, ends_update, ends_pure]
  have hperm := CostTable.constructionOrder_perm s.run.requestedKinds.toList s.run.costs
  have hcosts := CostTable.registry_constructionOrder s.run.requestedKinds.toList s.run.costs
  have hconsult : Step m ⟨s, []⟩ _ :=
    .consult hcosts (CostTable.siblings_constructionOrder (t := s.run.costs) L _)
  have horder : s.run.costs.siblings s.run.requestedKinds.toList =
    (CostTable.constructionOrder s.run.requestedKinds.toList s.run.costs).1 ++ [] :=
      (List.append_nil _).symm
  refine (follows_turns m L horder (.single hconsult)).mono ?_ ?_
  · rintro - u ⟨hsteps, hu⟩
    exact ⟨u, .head hconsult hsteps, fun k hk => hu.built k (hperm.mem_iff.2 hk), rfl, rfl⟩
  · rintro e t ⟨c, hsteps, hstop⟩
    exact ⟨c, .head hconsult hsteps, hstop⟩

/-- The evaluation phase needs a request first. -/
theorem evaluate_fresh {m : Manager K E S} {s : Session K S} (h : s.run.phase = .fresh) :
    evaluate m s = .error (.phase .notRequested) s := by
  unfold evaluate
  simp only [get_bind_apply, h]
  rfl

/-- The evaluation phase succeeds only once. -/
theorem evaluate_again {m : Manager K E S} {s : Session K S} (h : s.run.phase = .evaluated) :
    evaluate m s = .error (.phase .alreadyEvaluated) s := by
  unfold evaluate
  simp only [get_bind_apply, h]
  rfl

end TextIndex.Run
