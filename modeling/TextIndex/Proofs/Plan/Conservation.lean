import Mathlib.Data.Set.Card
import TextIndex.Proofs.Plan.Balance
import TextIndex.Proofs.Plan.Safety

/-!
# The request phase counts exactly

When no call to make a kind ready is refused, the first request ends well and its counts are those of
the requirement graph.

* The counted kinds are the reachable ones: `Run.request_counts` counts nothing else, and a counted
  kind has its requirements counted.
* The balance of the counts, without extra ones, says that the degree of a kind is the number of
  counted kinds that require it, and one more for the client.
* A kind is made ready as often as it is counted (`requestKind_asks`), and protected when its degree
  becomes two (`Shared`), which happens once.
-/

set_option autoImplicit false

namespace TextIndex

variable {K E S : Type}

/-- How often a manager received a call, carried out or not. -/
def Log.received [DecidableEq K] (log : Log K) (event : Event K) : Nat :=
  log.countP fun e => e.event = event

/-- A further call is received once more. -/
theorem Log.received_snoc [DecidableEq K] (log : Log K) (e : Entry K) (event : Event K) :
    Log.received (log ++ [e]) event = Log.received log event + if e.event = event then 1 else 0 := by
  unfold Log.received
  rw [List.countP_append, List.countP_singleton]
  simp only [decide_eq_true_eq]

/-- In the states that satisfy `I` a manager does not refuse to make a kind ready, and what it does in
the request phase keeps `I`. -/
structure Manager.Prepares (m : Manager K E S) (I : S → Prop) : Prop where
  ensure : ∀ k s, I s → ∃ t, m.ensure k s = .ok () t ∧ I t
  protect : ∀ k s, I s → I (m.protect k s)

/-- Watching a call that is not refused gives one that is not refused. -/
theorem Traced.ask_succeeds (event : Event K) {call : EStateM E S Unit} {I : S → Prop}
    {s : Traced K S} (h : ∃ t, call s.inner = .ok () t ∧ I t) :
    ∃ t, Traced.ask event call s = .ok () t ∧ I t.inner := by
  obtain ⟨t, ht, hI⟩ := h
  unfold Traced.ask
  rw [ht]
  exact ⟨_, rfl, hI⟩

/-- A manager that makes every kind ready does so when watched. -/
theorem Manager.Prepares.traced {m : Manager K E S} {I : S → Prop} (h : m.Prepares I) :
    m.traced.Prepares fun t => I t.inner where
  ensure k t ht := Traced.ask_succeeds (.ensure k) (h.ensure k t.inner ht)
  protect k t ht := h.protect k t.inner ht

namespace Run

variable [DecidableEq K]

/-! ## Calls and counts -/

/-- From `s` to `t` every kind has been made ready as often as it has been counted. -/
def Asked (s t : Session K (Traced K S)) : Prop :=
  ∀ x, Log.received t.manager.log (.ensure x) + s.run.degrees.degree x =
    Log.received s.manager.log (.ensure x) + t.run.degrees.degree x

/-- Calls and counts that go along in two stretches do so in the whole. -/
theorem Asked.trans {s t u : Session K (Traced K S)} (h : Asked s t) (h' : Asked t u) :
    Asked s u := fun x => by
  have hx := h x
  have hx' := h' x
  omega

/-- Making a kind ready and counting it, whatever else happens in between. -/
theorem asked_counted {m : Manager K E S} {k : K} {s t u : Session K (Traced K S)}
    (hlog : t.manager.log = s.manager.log ++ [⟨.ensure k, true⟩]) (hrun : t.run = s.run)
    (h : Asked t u) : Asked s (counted m.traced k u) := fun x => by
  have hx := h x
  have hensure : Log.received (counted m.traced k u).manager.log (.ensure x) =
      Log.received u.manager.log (.ensure x) := by
    unfold counted
    split
    · show Log.received (u.manager.log ++ [⟨.protect k, true⟩]) _ = _
      rw [Log.received_snoc]
      simp
    · rfl
  rw [hlog, Log.received_snoc, hrun] at hx
  rw [hensure, degrees_counted, DegreeMap.degree_increment]
  by_cases hk : x = k
  · subst hk
    simp only [if_true] at hx ⊢
    omega
  · simp only [Event.ensure.injEq, hk, Ne.symm hk, if_false] at hx ⊢
    omega

/-- A walk makes every kind ready as often as it counts it. -/
theorem requestKind_asks (m : Manager K E S) (depth : Nat) :
    ∀ (k : K) (s : Session K (Traced K S)),
      Ends (requestKind m.traced depth k) s (fun _ t => Asked s t) fun _ _ => True := by
  induction depth with
  | zero => exact fun k s x => rfl
  | succ depth ih =>
    intro k s
    unfold requestKind
    simp only [ends_bind, ends_get, ends_ask]
    refine ⟨?_, fun _ _ _ => trivial⟩
    intro t ht
    have hlog : t.log = s.manager.log ++ [⟨.ensure k, true⟩] := Traced.log_of_ask_ok ht
    have hfirst : ∀ u, Asked { s with manager := t } u → Asked s (counted m.traced k u) :=
      fun u hu => asked_counted (t := { s with manager := t }) hlog rfl hu
    rw [ends_ite]
    constructor
    · intro _
      have hloop : Ends ((s.run.registry.requirements k).forM (requestKind m.traced depth))
          { s with manager := t } (fun _ u => Asked { s with manager := t } u) fun _ _ => True := by
        apply ends_forM (fun _ u => Asked { s with manager := t } u) (fun x => rfl)
        intro _ q _ u _ hu
        exact (ih q u).mono (fun _ v hv => hu.trans hv) fun _ _ hF => hF
      rw [ends_bind]
      refine hloop.mono ?_ fun _ _ hF => hF
      intro _ u hu
      rw [ends_countConsumer]
      exact hfirst u hu
    · intro _
      rw [ends_countConsumer]
      exact hfirst _ fun x => rfl

/-- A request makes every kind ready as often as it counts it. -/
theorem request_asks (m : Manager K E S) (s : Session K (Traced K S)) :
    Ends (request m.traced) s (fun _ t => Asked s t) fun _ _ => True := by
  unfold request
  rw [ends_bind, ends_get, ends_ite]
  refine ⟨?_, fun _ => trivial⟩
  intro _
  rw [ends_bind]
  refine (ends_forM (fun _ u => Asked s u) (fun x => rfl) ?_).mono (fun _ u hu => hu)
    fun _ _ hF => hF
  intro _ q _ u _ hu
  exact (requestKind_asks m _ q u).mono (fun _ v hv => hu.trans hv) fun _ _ hF => hF

/-- Counting one more consumer keeps the protected kinds those with several consumers. -/
theorem protected_counted (m : Manager K E S) {s : Session K S}
    (h : ∀ x, x ∈ s.run.protectedKinds ↔ 2 ≤ s.run.degrees.degree x) (k x : K) :
    x ∈ (counted m k s).run.protectedKinds ↔ 2 ≤ (counted m k s).run.degrees.degree x := by
  rw [degrees_counted, DegreeMap.degree_increment]
  unfold counted
  split
  · next hk =>
    show x ∈ s.run.protectedKinds.insert k ↔ _
    rw [KindSet.mem_insert, h]
    by_cases hx : x = k
    · simp [hx, hk.1]
    · simp [hx]
  · next hk =>
    -- a first consumer is not enough, and with a third one the kind is protected already
    show x ∈ s.run.protectedKinds ↔ _
    have hone : s.run.degrees.degree k ≠ 1 := fun hone => hk ⟨hone, fun hmem => by
      have := (h k).1 hmem
      omega⟩
    rw [h]
    split
    · next hx => subst hx; omega
    · rfl

/-- The kinds with several consumers are protected throughout a request. -/
theorem RequestSteps.protected_iff {m : Manager K E S} {s t : Session K S}
    (hsteps : RequestSteps m s t) (h : ∀ x, x ∈ s.run.protectedKinds ↔ 2 ≤ s.run.degrees.degree x) :
    ∀ x, x ∈ t.run.protectedKinds ↔ 2 ≤ t.run.degrees.degree x := by
  induction hsteps with
  | refl => exact h
  | tail _ hstep ih =>
    cases hstep with
    | ensured => exact ih
    | refused => exact ih
    | counted k => exact protected_counted m ih k

/-- The protected kinds are those with several consumers, and each of them was protected once. -/
structure Shared (s : Session K (Traced K S)) : Prop where
  protected_iff : ∀ x, x ∈ s.run.protectedKinds ↔ 2 ≤ s.run.degrees.degree x
  received : ∀ x, Log.received s.manager.log (.protect x) =
    if 2 ≤ s.run.degrees.degree x then 1 else 0

/-- A call other than `protect` says nothing about who is shared. -/
theorem Shared.note {s s' : Session K (Traced K S)} (h : Shared s) {e : Entry K}
    (hlog : s'.manager.log = s.manager.log ++ [e]) (he : ∀ x, e.event ≠ .protect x)
    (hrun : s'.run = s.run) : Shared s' where
  protected_iff := by rw [hrun]; exact h.protected_iff
  received x := by
    rw [hlog, hrun, Log.received_snoc, if_neg (he x)]
    exact h.received x

/-- Counting one more consumer protects a kind exactly when it is the second. -/
theorem Shared.counted {m : Manager K E S} {s : Session K (Traced K S)} (h : Shared s) (k : K) :
    Shared (Run.counted m.traced k s) := by
  refine ⟨protected_counted m.traced h.protected_iff k, ?_⟩
  intro x
  rw [degrees_counted, DegreeMap.degree_increment]
  unfold Run.counted
  split
  · next hk =>
    show Log.received (s.manager.log ++ [⟨.protect k, true⟩]) _ = _
    rw [Log.received_snoc, h.received]
    by_cases hx : x = k
    · simp [hx, hk.1]
    · simp [hx, Ne.symm hx]
  · next hk =>
    show Log.received s.manager.log _ = _
    have hone : s.run.degrees.degree k ≠ 1 := fun hone => hk ⟨hone, fun hmem => by
      have := (h.protected_iff k).1 hmem
      omega⟩
    rw [h.received]
    by_cases hx : x = k
    · subst hx
      have hsame : 2 ≤ s.run.degrees.degree x + 1 ↔ 2 ≤ s.run.degrees.degree x := by omega
      simp only [if_true, hsame]
    · simp only [hx, if_false]

/-- Each of them is protected once throughout a request. -/
theorem Shared.requestSteps {m : Manager K E S} {s t : Session K (Traced K S)} (h : Shared s)
    (hsteps : RequestSteps m.traced s t) : Shared t := by
  induction hsteps with
  | refl => exact h
  | tail _ hstep ih =>
    cases hstep with
    | ensured hm => exact ih.note (Traced.log_of_ask_ok hm) (by simp) rfl
    | refused hm => exact ih.note (Traced.log_of_ask_error hm) (by simp) rfl
    | counted k => exact ih.counted k

/-! ## Degrees of the requirement graph -/

/-- Before anything is built, the consumers of a kind are the reachable kinds that require it. -/
theorem consumers_eq_ncard {r : Run K} {extra : K → Nat} (h : r.Counted extra) {P : K → Prop}
    (hP : ∀ y, r.degrees.Contains y ↔ P y) (x : K) :
    r.consumers x = {y | P y ∧ x ∈ r.registry.requirements y}.ncard := by
  have hset : {y | P y ∧ x ∈ r.registry.requirements y} =
      ((r.degrees.keys.filter fun y => x ∈ r.registry.requirements y).toFinset : Set K) := by
    ext y
    simp only [Set.mem_ofPred_eq, List.coe_toFinset, List.mem_filter, decide_eq_true_eq, ← hP y]
    rfl
  have hnodup : (r.degrees.keys.filter fun y => x ∈ r.registry.requirements y).Nodup :=
    (KindMap.nodup_keys _).filter _
  rw [hset, Set.ncard_coe_finset, List.toFinset_card_of_nodup hnodup, ← List.countP_eq_length_filter]
  unfold consumers
  simp [h.unbuilt]

/-- The session after a request that went well: the counts are those of the requirement graph, and
the manager was called accordingly. -/
structure Conserved (r : Registry K) (requested : List K) (t : Session K (Traced K S)) : Prop where
  /-- The reachable kinds have been counted, and no others. -/
  contains_iff : ∀ k, t.run.degrees.Contains k ↔ r.Reachable requested k
  /-- The degree of a kind is the number of reachable kinds that require it, and one more if it is
  requested. -/
  degree_eq : ∀ k, t.run.degrees.degree k =
    {y | r.Reachable requested y ∧ k ∈ r.requirements y}.ncard + if k ∈ requested then 1 else 0
  /-- A kind was made ready once for each consumer. -/
  ensured : ∀ k, Log.received t.manager.log (.ensure k) = t.run.degrees.degree k
  /-- A kind with several consumers was protected once, and no other kind. -/
  protected_once : ∀ k, Log.received t.manager.log (.protect k) =
    if 2 ≤ t.run.degrees.degree k then 1 else 0

/-- The request phase keeps what the manager's own steps keep. -/
theorem RequestSteps.keeps_prepared {m : Manager K E S} {I : S → Prop} (hm : m.Prepares I)
    {s t : Session K S} (hs : I s.manager) (hsteps : RequestSteps m s t) : I t.manager := by
  induction hsteps with
  | refl => exact hs
  | tail _ hstep ih =>
    cases hstep with
    | @ensured k t h =>
      obtain ⟨t', ht', hI⟩ := hm.ensure k _ ih
      cases ht'.symm.trans h
      exact hI
    | @refused k e t h =>
      obtain ⟨t', ht', -⟩ := hm.ensure k _ ih
      cases ht'.symm.trans h
    | counted k =>
      unfold counted
      split
      · exact hm.protect k _ ih
      · exact ih

/-- The requested kinds of a run are those that the client listed. -/
theorem mem_requestedKinds_start {registry : Registry K} {requested : List K} {mode : Mode}
    {run : Run K} (hstart : Run.start registry requested mode = .ok run) (k : K) :
    k ∈ run.requestedKinds.toList ↔ k ∈ requested := by
  obtain ⟨-, rfl⟩ := start_ok hstart
  exact KindSet.mem_ofList

/-- A first request that succeeds counts what the requested kinds lead to, and nothing twice. -/
theorem request_ok {registry : Registry K} {requested : List K} {mode : Mode} {run : Run K}
    (hstart : Run.start registry requested mode = .ok run) {m : Manager K E S} {s : S}
    {t : Session K S} (h : request m ⟨run, s⟩ = .ok () t) :
    ∃ u : Session K S, RequestSteps m ⟨run, s⟩ u ∧
      (u.run.Counted fun x => u.run.requestedKinds.toList.count x) ∧
      (∀ k, u.run.degrees.Contains k ↔ registry.Reachable requested k) ∧
      t = { u with run := { u.run with phase := .requested } } := by
  obtain ⟨L⟩ := Registry.nonempty_layers_of_request (start_ok hstart).1
  have hrun : run.phase = .fresh ∧ run.degrees = .empty ∧ run.registry = registry := by
    obtain ⟨-, rfl⟩ := start_ok hstart
    exact ⟨rfl, rfl, rfl⟩
  obtain ⟨u, hsteps, hcounted, honly, rfl⟩ := (request_counts L m (s := ⟨run, s⟩) hrun.1 hrun.2.2
    (counted_start hstart)).of_ok h
  have hreg : u.run.registry = registry := (RequestSteps.registry_eq hsteps).trans hrun.2.2
  have hreq : u.run.requestedKinds = run.requestedKinds := by
    rw [RequestSteps.run_eq hsteps]
  have hcounted' : u.run.Counted fun x => u.run.requestedKinds.toList.count x := by
    simpa [hreq] using hcounted
  refine ⟨u, hsteps, hcounted', ?_, rfl⟩
  intro k
  rw [← Registry.reachable_congr (mem_requestedKinds_start hstart)]
  refine ⟨fun hk => (honly k hk).resolve_left ?_, fun hk => ?_⟩
  · show ¬ run.degrees.Contains k
    rw [hrun.2.1]
    exact DegreeMap.not_contains_empty k
  · have hk' : u.run.registry.Reachable u.run.requestedKinds.toList k := by rwa [hreg, hreq]
    refine hcounted'.contains_of_reachable ?_ hk'
    intro x hx
    rw [count_requested, if_pos hx]
    omega

/-- A first request of a manager that does not refuse to make a kind ready succeeds. -/
theorem request_granted {registry : Registry K} {requested : List K} {mode : Mode} {run : Run K}
    (hstart : Run.start registry requested mode = .ok run) {m : Manager K E S}
    {I : S → Prop} (hm : m.Prepares I) {s : S} (hs : I s) :
    ∃ u : Session K S,
      request m ⟨run, s⟩ = .ok () { u with run := { u.run with phase := .requested } } ∧
      RequestSteps m ⟨run, s⟩ u ∧
      (u.run.Counted fun x => u.run.requestedKinds.toList.count x) ∧
      ∀ k, u.run.degrees.Contains k ↔ registry.Reachable requested k := by
  obtain ⟨L⟩ := Registry.nonempty_layers_of_request (start_ok hstart).1
  have hfresh : run.phase = .fresh ∧ run.registry = registry := by
    obtain ⟨-, rfl⟩ := start_ok hstart
    exact ⟨rfl, rfl⟩
  cases hrequest : request m ⟨run, s⟩ with
  | error e t =>
    obtain ⟨-, -, u, k, cause, hsteps, -, hrefused⟩ := (request_counts L m
      (s := ⟨run, s⟩) hfresh.1 hfresh.2 (counted_start hstart)).of_error hrequest
    obtain ⟨v, hv, -⟩ := hm.ensure k _ (RequestSteps.keeps_prepared hm hs hsteps)
    cases hv.symm.trans hrefused
  | ok _ t =>
    obtain ⟨u, hsteps, hcounted, hcontains, rfl⟩ := request_ok hstart hrequest
    exact ⟨u, rfl, hsteps, hcounted, hcontains⟩

/-- So does one of the same manager, watched. -/
theorem request_prepared {registry : Registry K} {requested : List K} {mode : Mode} {run : Run K}
    (hstart : Run.start registry requested mode = .ok run) {m : Manager K E S}
    {I : S → Prop} (hm : m.Prepares I) {s : S} (hs : I s) :
    ∃ u : Session K (Traced K S),
      request m.traced ⟨run, Traced.start s⟩ =
        .ok () { u with run := { u.run with phase := .requested } } ∧
      RequestSteps m.traced ⟨run, Traced.start s⟩ u ∧
      (u.run.Counted fun x => u.run.requestedKinds.toList.count x) ∧
      ∀ k, u.run.degrees.Contains k ↔ registry.Reachable requested k :=
  request_granted hstart hm.traced hs

/-- On a valid registry, with a manager that does not refuse to make a kind ready, the first request
succeeds and counts exactly. -/
theorem request_conserves_degrees {registry : Registry K} {requested : List K} {mode : Mode}
    {run : Run K} (hstart : Run.start registry requested mode = .ok run) {m : Manager K E S}
    {I : S → Prop} (hm : m.Prepares I) {s : S} (hs : I s) :
    ∃ t, request m.traced ⟨run, Traced.start s⟩ = .ok () t ∧ Conserved registry requested t := by
  obtain ⟨u, hrequest, hsteps, hcounted, hcontains⟩ := request_prepared hstart hm hs
  have hsound := sound_start hstart s
  have hzero : run.degrees = .empty ∧ run.protectedKinds = .empty := by
    obtain ⟨-, rfl⟩ := start_ok hstart
    exact ⟨rfl, rfl⟩
  have hreg : u.run.registry = registry :=
    (RequestSteps.registry_eq hsteps).trans hsound.registry_eq
  have hreq : u.run.requestedKinds = run.requestedKinds := by
    rw [RequestSteps.run_eq hsteps]
  have hasked : Asked ⟨run, Traced.start s⟩ _ := (request_asks m _).of_ok hrequest
  have hshared : Shared u := Shared.requestSteps
    ⟨fun x => by simp [hzero], fun x => by simp [hzero, Traced.start, Log.received]⟩ hsteps
  refine ⟨_, hrequest, hcontains, ?_, ?_, hshared.received⟩
  · intro k
    show u.run.degrees.degree k = _
    rw [hcounted.balanced, consumers_eq_ncard hcounted hcontains, hreg, count_requested, hreq]
    exact congrArg _ (if_congr (hsound.mem_requestedKinds k) rfl rfl)
  · intro k
    have hk := hasked k
    simp only [hzero.1, DegreeMap.degree_empty, Traced.start] at hk
    simpa [Log.received] using hk

/-- Two kinds built from a third, a fourth built from both, and a request that repeats itself. -/
theorem conserved_on_diamond :
    ∃ run, Run.start Registry.diamond [3, 0, 3] .delayed = .ok run ∧
      ∃ t, request Recorder.manager.traced ⟨run, Traced.start (.new none)⟩ = .ok () t ∧
        Conserved Registry.diamond [3, 0, 3] t :=
  ⟨_, rfl, request_conserves_degrees (I := fun _ => True) rfl
    ⟨fun _ _ _ => ⟨_, rfl, trivial⟩, fun _ _ _ => trivial⟩ trivial⟩

end Run

end TextIndex
