import Mathlib.Data.List.Nodup
import Mathlib.Logic.Relation
import TextIndex.Plan.Run
import TextIndex.Proofs.Ends
import TextIndex.Proofs.Plan.Layers

/-!
# The request phase

While requirements are walked, the run changes in one way only: a kind is counted once more, and
protected when that makes two consumers. `RequestStep` says what a single step can do, and
`Run.Counted` is the balance that a walk keeps: the degree of a kind is the number of counted kinds
that require it, plus a number of `extra` counts that no counted kind accounts for.

* A walk that succeeds adds one extra count, for the kind that it was started from
  (`requestKind_counts`): the counts of its requirements are taken over by the kind itself when it is
  counted for the first time.
* A walk that fails leaves the extra counts of its unfinished part behind.
-/

set_option autoImplicit false

namespace TextIndex.Run

open Relation (ReflTransGen)

variable {K E S : Type}

/-! ## The single steps of a session -/

/-- Changing the run leaves the manager alone. -/
@[simp] theorem ends_update {f : Run K → Run K} {s : Session K S} {Q : Unit → Session K S → Prop}
    {F : ScheduleError K E → Session K S → Prop} :
    Ends (update f : SessionM K E S Unit) s Q F ↔ Q () { s with run := f s.run } := Iff.rfl

/-- A call that cannot be refused changes the manager only. -/
@[simp] theorem ends_tell {call : S → S} {s : Session K S} {Q : Unit → Session K S → Prop}
    {F : ScheduleError K E → Session K S → Prop} :
    Ends (tell call : SessionM K E S Unit) s Q F ↔ Q () { s with manager := call s.manager } :=
  Iff.rfl

/-- A call that may be refused either changes the manager or fails under the name of its kind. -/
theorem ends_ask {k : K} {call : EStateM E S Unit} {s : Session K S}
    {Q : Unit → Session K S → Prop} {F : ScheduleError K E → Session K S → Prop} :
    Ends (ask k call : SessionM K E S Unit) s Q F ↔
      (∀ t, call s.manager = .ok () t → Q () { s with manager := t }) ∧
        ∀ e t, call s.manager = .error e t → F (.manager k e) { s with manager := t } := by
  unfold Ends ask
  cases h : call s.manager with
  | ok u t => simp
  | error e t => simp

/-- Asking the cost table changes at most what the table remembers. -/
@[simp] theorem ends_consult {α : Type} {query : StateM (CostTable K) α} {s : Session K S}
    {Q : α → Session K S → Prop} {F : ScheduleError K E → Session K S → Prop} :
    Ends (consult query : SessionM K E S α) s Q F ↔
      Q (query s.run.costs).1 { s with run := { s.run with costs := (query s.run.costs).2 } } :=
  Iff.rfl

variable [DecidableEq K]

/-! ## Steps of the request phase -/

/-- The session after one more consumer of `k` has been counted. -/
def counted (m : Manager K E S) (k : K) (s : Session K S) : Session K S :=
  if s.run.degrees.degree k = 1 ∧ k ∉ s.run.protectedKinds then
    ⟨{ s.run with
        degrees := s.run.degrees.increment k
        protectedKinds := s.run.protectedKinds.insert k },
      m.protect k s.manager⟩
  else { s with run := { s.run with degrees := s.run.degrees.increment k } }

/-- Counting a consumer never fails. -/
theorem countConsumer_eq (m : Manager K E S) (k : K) (s : Session K S) :
    countConsumer m k s = .ok () (counted m k s) := by
  unfold countConsumer counted
  by_cases h : s.run.degrees.degree k = 1 ∧ k ∉ s.run.protectedKinds
  · simp only [h, not_false_eq_true, and_self, if_true]
    show (if s.run.degrees.degree k = 1 ∧ k ∉ s.run.protectedKinds then _ else _ :
      SessionM K E S Unit) _ = _
    simp only [h, not_false_eq_true, and_self, if_true]
    rfl
  · simp only [h, if_false]
    show (if s.run.degrees.degree k = 1 ∧ k ∉ s.run.protectedKinds then _ else _ :
      SessionM K E S Unit) _ = _
    simp only [h, if_false]
    rfl

/-- Counting a consumer ends in the session that has counted it. -/
@[simp] theorem ends_countConsumer {m : Manager K E S} {k : K} {s : Session K S}
    {Q : Unit → Session K S → Prop} {F : ScheduleError K E → Session K S → Prop} :
    Ends (countConsumer m k) s Q F ↔ Q () (counted m k s) := by
  unfold Ends
  rw [countConsumer_eq]

/-- Counting a consumer adds one to the degree of the kind. -/
@[simp] theorem degrees_counted (m : Manager K E S) (k : K) (s : Session K S) :
    (counted m k s).run.degrees = s.run.degrees.increment k := by
  unfold counted
  split <;> rfl

/-- What a single step of the request phase does. -/
inductive RequestStep (m : Manager K E S) : Session K S → Session K S → Prop where
  | ensured {s : Session K S} {k : K} {t : S} (h : m.ensure k s.manager = .ok () t) :
      RequestStep m s { s with manager := t }
  | refused {s : Session K S} {k : K} {e : E} {t : S} (h : m.ensure k s.manager = .error e t) :
      RequestStep m s { s with manager := t }
  | counted (s : Session K S) (k : K) : RequestStep m s (Run.counted m k s)

/-- Any number of steps. -/
abbrev RequestSteps (m : Manager K E S) : Session K S → Session K S → Prop :=
  ReflTransGen (RequestStep m)

/-- The request phase changes the degrees and the protected kinds of a run, and nothing else. -/
theorem RequestSteps.run_eq {m : Manager K E S} {s t : Session K S} (h : RequestSteps m s t) :
    t.run = { s.run with degrees := t.run.degrees, protectedKinds := t.run.protectedKinds } := by
  induction h with
  | refl => rfl
  | tail _ hstep ih =>
    cases hstep with
    | ensured => exact ih
    | refused => exact ih
    | counted k =>
      unfold Run.counted
      split <;> · rw [ih]

/-- The request phase keeps the registry. -/
theorem RequestSteps.registry_eq {m : Manager K E S} {s t : Session K S}
    (h : RequestSteps m s t) : t.run.registry = s.run.registry := by
  unfold registry
  rw [h.run_eq]

/-! ## The balance of a walk -/

/-- How many of the counted kinds that have not been built require `x`. -/
def consumers (r : Run K) (x : K) : Nat :=
  r.degrees.keys.countP fun y => y ∉ r.constructedKinds ∧ x ∈ r.registry.requirements y

/-- The degrees of a run before anything is built: what the counted kinds require, and `extra`. -/
structure Counted (r : Run K) (extra : K → Nat) : Prop where
  unbuilt : r.constructedKinds = .empty
  balanced : ∀ x, r.degrees.degree x = r.consumers x + extra x
  positive : ∀ x, r.degrees.Contains x → 0 < r.degrees.degree x

/-- A kind that a counted kind requires has been counted. -/
theorem consumers_pos {r : Run K} {x y : K} (hy : r.degrees.Contains y)
    (hnew : y ∉ r.constructedKinds) (hx : x ∈ r.registry.requirements y) : 0 < r.consumers x := by
  unfold consumers
  rw [List.countP_pos_iff]
  exact ⟨y, hy, by simpa using ⟨hnew, hx⟩⟩

/-- Counting a kind that was counted before changes no other kind's consumers. -/
theorem consumers_increment_of_contains {r : Run K} {k x : K} (hk : r.degrees.Contains k) :
    { r with degrees := r.degrees.increment k }.consumers x = r.consumers x := by
  unfold consumers
  simp only [DegreeMap.keys_increment, if_pos hk]
  rfl

/-- A kind that is counted for the first time becomes a consumer of its requirements. -/
theorem consumers_increment_of_new {r : Run K} {k x : K} (hk : ¬ r.degrees.Contains k)
    (hnew : k ∉ r.constructedKinds) :
    { r with degrees := r.degrees.increment k }.consumers x =
      r.consumers x + if x ∈ r.registry.requirements k then 1 else 0 := by
  unfold consumers
  simp only [DegreeMap.keys_increment, if_neg hk, List.countP_append, List.countP_singleton, hnew,
    not_false_eq_true, true_and, decide_eq_true_eq]
  rfl

/-- The consumers of a kind are read off the degrees, the built kinds and the registry. -/
theorem consumers_counted (m : Manager K E S) (k x : K) (s : Session K S) :
    (counted m k s).run.consumers x =
      { s.run with degrees := s.run.degrees.increment k }.consumers x := by
  unfold counted
  split <;> rfl

/-- Counting a kind again is one extra count. -/
theorem Counted.again {m : Manager K E S} {k : K} {s : Session K S} {extra : K → Nat}
    (h : s.run.Counted extra) (hk : s.run.degrees.Contains k) :
    (counted m k s).run.Counted fun x => extra x + if x = k then 1 else 0 where
  unbuilt := by
    unfold counted
    split <;> exact h.unbuilt
  balanced x := by
    rw [degrees_counted, consumers_counted, consumers_increment_of_contains hk,
      DegreeMap.degree_increment, h.balanced x]
    split
    · next hx => rw [← hx, h.balanced x]; omega
    · omega
  positive x hx := by
    rw [degrees_counted, DegreeMap.degree_increment]
    rw [degrees_counted, DegreeMap.contains_increment] at hx
    split
    · omega
    · next hne => exact h.positive x (hx.resolve_right hne)

/-- When a kind is counted for the first time, it takes over one extra count of each of its
requirements. -/
theorem Counted.first {m : Manager K E S} {k : K} {s : Session K S} {extra : K → Nat}
    (h : s.run.Counted fun x => extra x + (s.run.registry.requirements k).count x)
    (hk : ¬ s.run.degrees.Contains k) :
    (counted m k s).run.Counted fun x => extra x + if x = k then 1 else 0 where
  unbuilt := by
    unfold counted
    split <;> exact h.unbuilt
  balanced x := by
    have hnew : k ∉ s.run.constructedKinds := by rw [h.unbuilt]; exact KindSet.not_mem_empty k
    have hcount : (s.run.registry.requirements k).count x =
        if x ∈ s.run.registry.requirements k then 1 else 0 :=
      (s.run.registry.nodup_requirements k).count
    rw [degrees_counted, consumers_counted, consumers_increment_of_new hk hnew,
      DegreeMap.degree_increment]
    have hx := h.balanced x
    have hzero : ¬ 0 < s.run.degrees.degree k := fun hpos =>
      hk (DegreeMap.contains_of_degree_pos hpos)
    split
    · next heq => subst heq; omega
    · omega
  positive x hx := by
    rw [degrees_counted, DegreeMap.degree_increment]
    rw [degrees_counted, DegreeMap.contains_increment] at hx
    split
    · omega
    · next hne => exact h.positive x (hx.resolve_right hne)

/-! ## Walks -/

/-- After some steps the manager refused to make a kind ready, and the failure names that kind. -/
def Refused (m : Manager K E S) (s : Session K S) (e : ScheduleError K E) (t : Session K S) : Prop :=
  ∃ u k cause, RequestSteps m s u ∧ e = .manager k cause ∧
    m.ensure k u.manager = .error cause t.manager

/-- A refusal after further steps. -/
theorem Refused.after {m : Manager K E S} {s s' t : Session K S} {e : ScheduleError K E}
    (hsteps : RequestSteps m s s') (h : Refused m s' e t) : Refused m s e t := by
  obtain ⟨u, k, cause, hsteps', he, hrefused⟩ := h
  exact ⟨u, k, cause, hsteps.trans hsteps', he, hrefused⟩

/-- A walk consists of single steps, and it fails only where the manager does. -/
def Walks (m : Manager K E S) (x : SessionM K E S Unit) (s : Session K S)
    (Q : Session K S → Prop) (F : Session K S → Prop) : Prop :=
  Ends x s (fun _ t => RequestSteps m s t ∧ Q t)
    (fun e t => RequestSteps m s t ∧ F t ∧ Refused m s e t)

/-- The kinds counted in `t` are those counted in `s` and kinds that satisfy `P`. -/
def CountsOnly (P : K → Prop) (s t : Session K S) : Prop :=
  ∀ x, t.run.degrees.Contains x → s.run.degrees.Contains x ∨ P x

/-- Walks that each add one extra count add together one for every member of their list. -/
theorem walks_forM {r : Registry K} {m : Manager K E S} (walk : K → SessionM K E S Unit)
    (qs : List K)
    (hwalk : ∀ q ∈ qs, ∀ {s : Session K S} {extra : K → Nat}, s.run.registry = r →
      s.run.Counted extra → Walks m (walk q) s
        (fun t => t.run.Counted (fun x => extra x + if x = q then 1 else 0) ∧
          CountsOnly (ReflTransGen r.Needs q) s t)
        (fun t => (∃ extra', t.run.Counted extra') ∧ CountsOnly (ReflTransGen r.Needs q) s t))
    {s : Session K S} {extra : K → Nat} (hreg : s.run.registry = r) (hcounted : s.run.Counted extra) :
    Walks m (qs.forM walk) s
      (fun t => t.run.Counted (fun x => extra x + qs.count x) ∧
        CountsOnly (fun x => r.Reachable qs x) s t)
      (fun t => (∃ extra', t.run.Counted extra') ∧ CountsOnly (fun x => r.Reachable qs x) s t) := by
  refine ends_forM (fun done t => RequestSteps m s t ∧
      t.run.Counted (fun x => extra x + done.count x) ∧ CountsOnly (fun x => r.Reachable qs x) s t)
    ⟨.refl, by simpa using hcounted, fun x hx => Or.inl hx⟩ ?_
  intro done q rest t hsplit ⟨hsteps, ht, honly⟩
  have hq : q ∈ qs := by rw [hsplit]; simp
  have hboth : ∀ {u}, CountsOnly (ReflTransGen r.Needs q) t u →
      CountsOnly (fun x => r.Reachable qs x) s u := fun honly' x hx =>
    (honly' x hx).elim (honly x) fun hx => Or.inr ⟨q, hq, hx⟩
  refine (hwalk q hq (hsteps.registry_eq.trans hreg) ht).mono ?_ ?_
  · rintro - u ⟨hsteps', hu, honly'⟩
    refine ⟨hsteps.trans hsteps', ?_, hboth honly'⟩
    convert hu using 2 with x
    rw [List.count_append, List.count_singleton', ← Nat.add_assoc]
    simp only [@eq_comm K q x]
  · rintro e u ⟨hsteps', ⟨hu, honly'⟩, he⟩
    exact ⟨hsteps.trans hsteps', ⟨hu, hboth honly'⟩, he.after hsteps⟩

/-- The walk from `k` adds one extra count, that of `k`, and counts nothing but what `k` leads to, also
where it is refused something. -/
theorem requestKind_counts {r : Registry K} (L : r.Layers) (m : Manager K E S) (depth : Nat) :
    ∀ {k : K} {s : Session K S} {extra : K → Nat}, L.level k < depth → s.run.registry = r →
      s.run.Counted extra →
      Walks m (requestKind m depth k) s
        (fun t => t.run.Counted (fun x => extra x + if x = k then 1 else 0) ∧
          CountsOnly (ReflTransGen r.Needs k) s t)
        (fun t => (∃ extra', t.run.Counted extra') ∧ CountsOnly (ReflTransGen r.Needs k) s t) := by
  -- what a kind requires has a lower level, so the depth that is left suffices for it
  induction depth with
  | zero =>
    intro k s extra hlevel
    exact absurd hlevel (Nat.not_lt_zero _)
  | succ depth ih =>
    intro k s extra hlevel hreg hcounted
    subst hreg
    unfold Walks requestKind
    simp only [ends_bind, ends_get, ends_ask]
    refine ⟨?_, fun e t ht =>
      ⟨.single (.refused ht), ⟨⟨extra, hcounted⟩, fun _ hx => Or.inl hx⟩, s, k, e, .refl, rfl, ht⟩⟩
    intro t ht
    have hensured : RequestSteps m s { s with manager := t } := .single (.ensured ht)
    rw [ends_ite]
    constructor
    · intro hnew
      have hloop := walks_forM (m := m) (requestKind m depth)
        (s.run.registry.requirements k) (s := { s with manager := t })
        (fun q hq _ _ hregq hq' => ih (by have := L.level_lt hq; omega) hregq hq') rfl hcounted
      have hbelow : ∀ {x}, s.run.registry.Reachable (s.run.registry.requirements k) x →
          ReflTransGen s.run.registry.Needs k x := by
        rintro x ⟨q, hq, hqx⟩
        exact .head hq hqx
      rw [ends_bind]
      refine hloop.mono ?_ ?_
      · rintro - u ⟨hsteps, hu, honly⟩
        rw [ends_countConsumer]
        have hregu := hsteps.registry_eq
        -- the walk below `k` cannot have counted `k` itself
        have hk : ¬ u.run.degrees.Contains k := fun hmem => by
          rcases honly k hmem with hmem | hmem
          · exact hnew hmem
          · obtain ⟨q, hq, hqk⟩ := hmem
            exact L.not_reachable_requirement hq hqk
        refine ⟨hensured.trans (hsteps.tail (.counted u k)), Counted.first (by rwa [hregu]) hk,
          ?_⟩
        intro x hx
        rw [degrees_counted, DegreeMap.contains_increment] at hx
        rcases hx with hx | rfl
        · exact (honly x hx).imp_right hbelow
        · exact Or.inr .refl
      · rintro e u ⟨hsteps, ⟨hu, honly⟩, he⟩
        exact ⟨hensured.trans hsteps, ⟨hu, fun x hx => (honly x hx).imp_right hbelow⟩,
          he.after hensured⟩
    · intro hold
      rw [ends_countConsumer]
      have hk : s.run.degrees.Contains k := not_not.1 hold
      refine ⟨hensured.tail (.counted _ k), Counted.again (s := { s with manager := t })
        hcounted hk, ?_⟩
      intro x hx
      rw [degrees_counted, DegreeMap.contains_increment] at hx
      rcases hx with hx | rfl
      · exact Or.inl hx
      · exact Or.inr .refl

/-- The phase adds one extra count for every requested kind, and counts what they lead to. -/
theorem request_counts {r : Registry K} (L : r.Layers) (m : Manager K E S) {s : Session K S}
    {extra : K → Nat} (hphase : s.run.phase = .fresh) (hreg : s.run.registry = r)
    (hcounted : s.run.Counted extra) :
    Ends (request m) s
      (fun _ t => ∃ u, RequestSteps m s u ∧
        u.run.Counted (fun x => extra x + s.run.requestedKinds.toList.count x) ∧
        CountsOnly (fun x => r.Reachable s.run.requestedKinds.toList x) s u ∧
        t = { u with run := { u.run with phase := .requested } })
      (fun e t => RequestSteps m s t ∧ ((∃ extra', t.run.Counted extra') ∧
        CountsOnly (fun x => r.Reachable s.run.requestedKinds.toList x) s t) ∧ Refused m s e t) := by
  unfold request
  simp only [ends_bind, ends_get, hphase, if_true, hreg]
  have hloop := walks_forM (m := m) (requestKind m r.depth)
    s.run.requestedKinds.toList
    (fun q _ _ _ hregq hq => requestKind_counts L m r.depth (L.level_lt_depth q) hregq hq)
    hreg hcounted
  refine hloop.mono ?_ (fun _ _ hF => hF)
  rintro - u ⟨hsteps, hu, honly⟩
  exact ⟨u, hsteps, hu, honly, rfl⟩

/-- The request phase is not started twice. -/
theorem request_again {m : Manager K E S} {s : Session K S} (h : s.run.phase ≠ .fresh) :
    request m s = .error (.phase .alreadyRequested) s := by
  unfold request
  show (if s.run.phase = .fresh then _ else _ : SessionM K E S Unit) s = _
  rw [if_neg h]
  rfl

end TextIndex.Run
