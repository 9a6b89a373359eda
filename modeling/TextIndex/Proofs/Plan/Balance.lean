import Mathlib.Data.List.Count
import Mathlib.Data.List.Nodup
import TextIndex.Proofs.Plan.Steps

/-!
# The balance of the evaluation phase

Throughout the evaluation phase the degree of a kind is the number of its consumers that are still to
come: the counted kinds that require it and have not been built, the client if it asked for the kind,
and the releases that are due after the last building. What a failed call left undone, earlier or
now, stays as `slack` on top; without failures there is none.

The consequences are what the phase is trusted for: no release finds a degree of zero, and the
number of live kinds is the number of built kinds that still have a consumer, hence never negative.
-/

set_option autoImplicit false

namespace TextIndex.Run

variable {K E S : Type} [DecidableEq K]

/-- The consumers of a kind that are still to come, the client included. -/
def outstanding (c : Stage K S) (x : K) : Nat :=
  c.session.run.consumers x + (if x ∈ c.session.run.requestedKinds then 1 else 0) +
    c.tasks.count (.release x)

/-- How many of the built kinds still have a consumer. -/
def heldCount (r : Run K) : Nat := r.constructedKinds.toList.countP fun k => 0 < r.degrees.degree k

/-- The state of the counts in the evaluation phase. -/
structure Balance (slack : K → Nat) (c : Stage K S) : Prop where
  /-- Degrees are the consumers to come, and slack. -/
  degree_eq : ∀ x, c.session.run.degrees.degree x = outstanding c x + slack x
  /-- Whatever the request leads to has been counted. -/
  reached : ∀ x, c.session.run.registry.Reachable c.session.run.requestedKinds.toList x →
    c.session.run.degrees.Contains x
  /-- Only built kinds are released. -/
  release_built : ∀ x, .release x ∈ c.tasks → x ∈ c.session.run.constructedKinds
  /-- The live count is that of the built kinds with consumers, … -/
  live_eq : c.session.run.live.now = c.session.run.heldCount
  /-- … and has never been negative. -/
  least_nonneg : 0 ≤ c.session.run.live.least

/-! ## Counts under the single changes -/

/-- Two conditions that differ at one member of a list are met there by numbers of members that
differ accordingly. -/
theorem countP_change {α : Type} [DecidableEq α] {l : List α} (hl : l.Nodup) {k : α} (hk : k ∈ l)
    {p q : α → Bool} (hsame : ∀ y, y ≠ k → p y = q y) :
    l.countP p + (if q k then 1 else 0) = l.countP q + if p k then 1 else 0 := by
  have hperm := List.perm_cons_erase hk
  have hrest : (l.erase k).countP p = (l.erase k).countP q :=
    List.countP_congr fun y hy => by
      rw [hsame y fun h => hl.not_mem_erase (h ▸ hy)]
  rw [hperm.countP_eq p, hperm.countP_eq q, List.countP_cons, List.countP_cons, hrest]
  omega

/-- Setting the degree of a counted kind changes no consumers. -/
theorem consumers_withDegree {r : Run K} {k : K} {n : Nat} (hk : r.degrees.Contains k) (x : K) :
    (r.withDegree k n).consumers x = r.consumers x := by
  unfold consumers withDegree
  simp only [DegreeMap.keys_put_of_contains hk]
  rfl

/-- Building a counted kind takes one consumer from each of its requirements. -/
theorem consumers_built {r : Run K} {k : K} (hk : r.degrees.Contains k)
    (hnew : k ∉ r.constructedKinds) (x : K) :
    (r.built k).consumers x + (if x ∈ r.registry.requirements k then 1 else 0) = r.consumers x := by
  have hchange := countP_change (l := r.degrees.keys) r.degrees.counts.nodup_keys (k := k) hk
    (p := fun y => y ∉ (r.built k).constructedKinds ∧ x ∈ r.registry.requirements y)
    (q := fun y => y ∉ r.constructedKinds ∧ x ∈ r.registry.requirements y)
    (fun y hy => by simp [hy])
  simpa [consumers, registry_built, hnew] using hchange

/-- Building a kind that has a consumer adds it to the held ones. -/
theorem heldCount_built {r : Run K} {k : K} (hnew : k ∉ r.constructedKinds)
    (hpos : 0 < r.degrees.degree k) : (r.built k).heldCount = r.heldCount + 1 := by
  show (r.constructedKinds.insert k).toList.countP (fun j => 0 < r.degrees.degree j) = _
  rw [KindSet.toList_insert_of_not_mem hnew, List.countP_append, List.countP_singleton]
  simp [heldCount, hpos]

/-- A built kind is held until its degree is zero. -/
theorem heldCount_withDegree {r : Run K} {k : K} {n : Nat} (hk : k ∈ r.constructedKinds)
    (hpos : 0 < r.degrees.degree k) :
    (r.withDegree k n).heldCount + (if n = 0 then 1 else 0) = r.heldCount := by
  have hchange := countP_change (l := r.constructedKinds.toList) r.constructedKinds.nodup
    (k := k) hk (p := fun y => 0 < (r.withDegree k n).degrees.degree y)
    (q := fun y => 0 < r.degrees.degree y)
    (fun y hy => by simp [degree_withDegree, hy])
  have hset : (r.withDegree k n).degrees.degree k = n := by
    rw [degree_withDegree, if_pos rfl]
  simp only [hset, hpos, decide_true, if_true] at hchange
  have hsame : (r.withDegree k n).constructedKinds = r.constructedKinds := rfl
  unfold heldCount
  rw [hsame]
  rcases Nat.eq_zero_or_pos n with rfl | hn
  · simp at hchange ⊢
    omega
  · simp [hn, Nat.ne_of_gt hn] at hchange ⊢
    omega

/-- After a kind has been built each of its requirements is to be released once. -/
theorem count_release_tasksAfter (r : Run K) (top : Bool) (k x : K) :
    (r.tasksAfter top k).count (.release x) = if x ∈ r.registry.requirements k then 1 else 0 := by
  have hby : ((r.registry.byproducts k).map Task.byproduct).count (.release x) = 0 :=
    List.count_eq_zero_of_not_mem (by simp)
  have hlast : (r.lastTasks top k).count (.release x) = 0 := by
    unfold lastTasks
    split <;> simp
  have hrel : ((r.registry.requirements k).map Task.release).count (.release x) =
      (r.registry.requirements k).count x :=
    List.count_map_of_injective _ _ (fun _ _ h => by injection h) x
  rw [tasksAfter, List.count_append, List.count_append, hby, hlast, hrel,
    (r.registry.nodup_requirements k).count]
  omega

/-! ## The balance is kept -/

/-- A kind with consumers to come has been counted, and its degree is positive. -/
theorem Balance.degree_pos {slack : K → Nat} {c : Stage K S} (h : Balance slack c) {x : K}
    (hx : 0 < outstanding c x) : 0 < c.session.run.degrees.degree x := by
  have := h.degree_eq x
  omega

/-- A requested kind always has a consumer. -/
theorem Balance.requested_pos {slack : K → Nat} {c : Stage K S} (h : Balance slack c) {x : K}
    (hx : x ∈ c.session.run.requestedKinds) : 0 < c.session.run.degrees.degree x := by
  apply h.degree_pos
  unfold outstanding
  rw [if_pos hx]
  omega

/-- So does a kind that a reachable kind requires and waits for. -/
theorem Balance.required_pos {slack : K → Nat} {c : Stage K S} (h : Balance slack c) {x y : K}
    (hy : c.session.run.registry.Reachable c.session.run.requestedKinds.toList y)
    (hnew : y ∉ c.session.run.constructedKinds) (hx : x ∈ c.session.run.registry.requirements y) :
    0 < c.session.run.degrees.degree x := by
  apply h.degree_pos
  have := consumers_pos (h.reached y hy) hnew hx
  unfold outstanding
  omega

/-- A kind that is looked for has a consumer. -/
theorem Balance.wanted_pos {slack : K → Nat} {c : Stage K S} (h : Balance slack c) {x : K}
    {top : Bool} (hx : c.session.run.Wanted x top) : 0 < c.session.run.degrees.degree x := by
  cases top with
  | true => exact h.requested_pos hx
  | false =>
    obtain ⟨y, hnew, hy, hxy⟩ := hx
    exact h.required_pos hy hnew hxy

/-- A release that is due finds a consumer to take away. -/
theorem Balance.release_pos {slack : K → Nat} {s : Session K S} {tasks : List (Task K)} {k : K}
    (h : Balance slack ⟨s, .release k :: tasks⟩) : 0 < s.run.degrees.degree k := by
  apply h.degree_pos (c := ⟨s, .release k :: tasks⟩)
  unfold outstanding
  rw [List.count_cons_self]
  omega

/-- A requested kind has the client besides the consumer that is taken away. -/
theorem Balance.not_requested_of_last {slack : K → Nat} {s : Session K S} {tasks : List (Task K)}
    {k : K} (h : Balance slack ⟨s, .release k :: tasks⟩) (hdeg : s.run.degrees.degree k = 1) :
    k ∉ s.run.requestedKinds := by
  intro hk
  have hout := h.degree_eq k
  simp only [outstanding, if_pos hk, List.count_cons_self, hdeg] at hout
  omega

/-- Only the degrees, what is built and requested, the live count and the releases due matter. -/
theorem Balance.frame {slack : K → Nat} {c c' : Stage K S} (h : Balance slack c)
    (hdegrees : c'.session.run.degrees = c.session.run.degrees)
    (hbuilt : c'.session.run.constructedKinds = c.session.run.constructedKinds)
    (hrequested : c'.session.run.requestedKinds = c.session.run.requestedKinds)
    (hregistry : c'.session.run.registry = c.session.run.registry)
    (hlive : c'.session.run.live = c.session.run.live)
    (hreleases : ∀ x, c'.tasks.count (.release x) = c.tasks.count (.release x)) :
    Balance slack c' where
  degree_eq x := by
    have hconsumers : c'.session.run.consumers x = c.session.run.consumers x := by
      unfold consumers
      rw [hdegrees, hbuilt, hregistry]
    unfold outstanding
    rw [hdegrees, hconsumers, hrequested, hreleases]
    exact h.degree_eq x
  reached x hx := by
    rw [hregistry, hrequested] at hx
    rw [hdegrees]
    exact h.reached x hx
  release_built x hx := by
    rw [hbuilt]
    refine h.release_built x (List.count_pos_iff.1 ?_)
    rw [← hreleases]
    exact List.count_pos_iff.2 hx
  live_eq := by
    unfold heldCount
    rw [hlive, hbuilt, hdegrees]
    exact h.live_eq
  least_nonneg := by
    rw [hlive]
    exact h.least_nonneg

/-- Building a kind that is ready: what it required waits for one consumer less and one release
more. -/
theorem Balance.construct {slack : K → Nat} {s : Session K S} {k : K} {top : Bool} {t : S}
    (h : Balance slack ⟨s, []⟩) (hready : s.run.Ready k top) :
    Balance slack ⟨⟨s.run.built k, t⟩, s.run.tasksAfter top k⟩ where
  degree_eq x := by
    have hcontains : s.run.degrees.Contains k :=
      DegreeMap.contains_of_degree_pos (h.wanted_pos hready.wanted)
    have hconsumers := consumers_built hcontains hready.unbuilt x
    have hold := h.degree_eq x
    simp only [outstanding, List.count_nil] at hold
    simp only [outstanding, count_release_tasksAfter, degrees_built]
    show s.run.degrees.degree x = _ + (if x ∈ s.run.requestedKinds then 1 else 0) + _ + _
    omega
  reached x hx := h.reached x hx
  release_built x hx := by
    have hcount := count_release_tasksAfter s.run top k x
    have hpos : 0 < (s.run.tasksAfter top k).count (.release x) := List.count_pos_iff.2 hx
    have hmem : x ∈ s.run.registry.requirements k := by
      by_contra hno
      rw [hcount, if_neg hno] at hpos
      exact absurd hpos (Nat.lt_irrefl 0)
    exact KindSet.mem_insert.2 (Or.inl (hready.requirements x hmem))
  live_eq := by
    have hheld := heldCount_built hready.unbuilt (h.wanted_pos hready.wanted)
    have hold : s.run.live.now = s.run.heldCount := h.live_eq
    show s.run.live.now + 1 = ((s.run.built k).heldCount : Int)
    omega
  least_nonneg := by
    have hold : s.run.live.now = s.run.heldCount := h.live_eq
    have hleast : 0 ≤ s.run.live.least := h.least_nonneg
    show 0 ≤ min s.run.live.least (s.run.live.now + 1)
    omega

/-- Taking one consumer away: one release less is due. The live count follows when it was the last
consumer. -/
theorem Balance.lower {slack : K → Nat} {s : Session K S} {k : K} {n : Nat} {tasks : List (Task K)}
    {c' : Stage K S} (h : Balance slack ⟨s, .release k :: tasks⟩)
    (hdeg : s.run.degrees.degree k = n + 1)
    (hdegrees : c'.session.run.degrees = (s.run.withDegree k n).degrees)
    (hbuilt : c'.session.run.constructedKinds = s.run.constructedKinds)
    (hrequested : c'.session.run.requestedKinds = s.run.requestedKinds)
    (hregistry : c'.session.run.registry = s.run.registry)
    (hlive : c'.session.run.live =
      if n = 0 then s.run.live.moveTo (s.run.live.now - 1) else s.run.live)
    (hreleases : ∀ x, c'.tasks.count (.release x) = tasks.count (.release x)) :
    Balance slack c' := by
  have hcontains : s.run.degrees.Contains k := DegreeMap.contains_of_degree_pos (by omega)
  have hheld : (s.run.withDegree k n).heldCount + (if n = 0 then 1 else 0) = s.run.heldCount :=
    heldCount_withDegree (h.release_built k (List.mem_cons_self ..)) (by omega)
  have hheld' : c'.session.run.heldCount = (s.run.withDegree k n).heldCount := by
    unfold heldCount
    rw [hbuilt, hdegrees]
    rfl
  have hnow : s.run.live.now = s.run.heldCount := h.live_eq
  have hleast : 0 ≤ s.run.live.least := h.least_nonneg
  refine ⟨?_, ?_, ?_, ?_, ?_⟩
  · intro x
    have hconsumers : c'.session.run.consumers x = s.run.consumers x := by
      rw [← consumers_withDegree (n := n) hcontains x]
      unfold consumers
      rw [hdegrees, hbuilt, hregistry]
      rfl
    -- `k` has one consumer and one release less, any other kind as many as before
    have hset : c'.session.run.degrees.degree x = if x = k then n else s.run.degrees.degree x := by
      rw [hdegrees]
      exact degree_withDegree s.run k x n
    have hold := h.degree_eq x
    simp only [outstanding, List.count_cons] at hold
    simp only [outstanding, hset, hconsumers, hrequested, hreleases]
    by_cases hx : x = k
    · subst hx
      simp only [if_true, beq_self_eq_true] at hold ⊢
      omega
    · have hne : (Task.release k == Task.release x) = false := by
        simpa using fun heq => hx (Eq.symm heq)
      simp only [hx, if_false, hne, Bool.false_eq_true] at hold ⊢
      omega
  · intro x hx
    rw [hregistry, hrequested] at hx
    rw [hdegrees]
    exact KindMap.contains_put.2 (Or.inl (h.reached x hx))
  · intro x hx
    rw [hbuilt]
    refine h.release_built x (List.mem_cons_of_mem _ (List.count_pos_iff.1 ?_))
    rw [← hreleases]
    exact List.count_pos_iff.2 hx
  · -- `k` stops being held exactly when the last consumer is gone
    rw [hlive, hheld']
    split
    · next hn =>
      rw [if_pos hn] at hheld
      show s.run.live.now - 1 = _
      omega
    · next hn =>
      rw [if_neg hn] at hheld
      omega
  · rw [hlive]
    split
    · next hn =>
      rw [if_pos hn] at hheld
      show 0 ≤ min s.run.live.least (s.run.live.now - 1)
      omega
    · exact hleast

/-- Every step keeps the balance, with the same slack. -/
theorem Balance.step {m : Manager K E S} {slack : K → Nat} {c c' : Stage K S}
    (h : Balance slack c) (hstep : Step m c c') : Balance slack c' := by
  cases hstep with
  | consult hreg => exact h.frame rfl rfl rfl hreg rfl fun _ => rfl
  | construct hready _ => exact h.construct hready
  | keepByproduct _ => exact h.frame rfl rfl rfl rfl rfl fun x => by simp
  | dropByproduct _ => exact h.frame rfl rfl rfl rfl rfl fun x => by simp
  | releaseLast hdeg => exact h.lower hdeg rfl rfl rfl rfl rfl fun _ => rfl
  | releaseToLast hdeg _ => exact h.lower hdeg rfl rfl rfl rfl rfl fun _ => rfl
  | releaseShared hdeg _ =>
    apply h.lower hdeg rfl rfl rfl rfl rfl
    intro x
    split <;> simp
  | settleSkip _ => exact h.frame rfl rfl rfl rfl rfl fun x => by simp
  | settleDone _ _ => exact h.frame rfl rfl rfl rfl rfl fun x => by simp

/-- Steps of an evaluation keep the counts in balance. -/
theorem Balance.steps {m : Manager K E S} {slack : K → Nat} {c c' : Stage K S}
    (h : Balance slack c) (hsteps : Steps m c c') : Balance slack c' := by
  induction hsteps with
  | refl => exact h
  | tail _ hstep ih => exact ih.step hstep

/-- A step that fails does so because the manager failed, and leaves a balance in which the releases
that were due have become slack. -/
theorem Balance.stop {m : Manager K E S} {slack : K → Nat} {c : Stage K S} {e : ScheduleError K E}
    {t : Session K S} (h : Balance slack c) (hstop : Stop m c e t) :
    (∃ slack', Balance slack' ⟨t, []⟩) ∧ ∃ k cause, e = .manager k cause := by
  have hdrop : ∀ {t : Session K S}, Balance slack ⟨t, c.tasks⟩ →
      Balance (fun x => slack x + c.tasks.count (.release x)) ⟨t, []⟩ := by
    intro t ht
    refine ⟨?_, ht.reached, by simp, ht.live_eq, ht.least_nonneg⟩
    intro x
    have hx := ht.degree_eq x
    simp only [outstanding, List.count_nil] at hx ⊢
    omega
  cases hstop with
  | construct hready _ =>
    exact ⟨⟨_, hdrop (h.frame rfl rfl rfl rfl rfl fun _ => rfl)⟩, _, _, rfl⟩
  | settle halone _ =>
    exact ⟨⟨_, hdrop (h.frame rfl rfl rfl rfl rfl fun _ => rfl)⟩, _, _, rfl⟩
  | release hdeg =>
    have := h.release_pos
    omega

/-- When every counted kind has been built and no release is due, the client and the slack are left. -/
theorem Balance.degree_of_all_built {slack : K → Nat} {t : Session K S} (h : Balance slack ⟨t, []⟩)
    (hbuilt : ∀ y, t.run.degrees.Contains y → y ∈ t.run.constructedKinds) (x : K) :
    t.run.degrees.degree x = (if x ∈ t.run.requestedKinds then 1 else 0) + slack x := by
  have hconsumers : t.run.consumers x = 0 := by
    unfold consumers
    rw [List.countP_eq_zero]
    intro y hy
    simp [hbuilt y hy]
  have hdegree := h.degree_eq x
  simpa [outstanding, hconsumers] using hdegree

/-- Without slack only the client is left. -/
theorem Balance.degree_of_built {t : Session K S} (h : Balance (fun _ => 0) ⟨t, []⟩)
    (hbuilt : ∀ y, t.run.degrees.Contains y → y ∈ t.run.constructedKinds) (x : K) :
    t.run.degrees.degree x = if x ∈ t.run.requestedKinds then 1 else 0 :=
  h.degree_of_all_built hbuilt x

/-! ## The balance at the start -/

/-- A kind that has been counted for the request, or that a counted kind requires, is counted. -/
theorem Counted.contains_of_reachable {r : Run K} {extra : K → Nat} (h : r.Counted extra)
    (hextra : ∀ x ∈ r.requestedKinds, 0 < extra x) {x : K}
    (hx : r.registry.Reachable r.requestedKinds.toList x) : r.degrees.Contains x := by
  refine hx.mem_of_closed r.degrees.Contains ?_ ?_
  · intro k hk
    have hpos := hextra k hk
    have hdeg := h.balanced k
    exact DegreeMap.contains_of_degree_pos (by omega)
  · intro k hk q hq
    have hnew : k ∉ r.constructedKinds := by
      rw [h.unbuilt]
      exact KindSet.not_mem_empty k
    have hpos := consumers_pos hk hnew hq
    have hdeg := h.balanced q
    exact DegreeMap.contains_of_degree_pos (by omega)

/-- A requested kind is counted once for its client. -/
theorem count_requested (r : Run K) (x : K) :
    r.requestedKinds.toList.count x = if x ∈ r.requestedKinds then 1 else 0 :=
  r.requestedKinds.nodup.count

/-- When the request phase is over, the counts that earlier attempts left behind are slack. -/
theorem Counted.balance {s : Session K S} {extra : K → Nat}
    (h : s.run.Counted fun x => extra x + s.run.requestedKinds.toList.count x)
    (hlive : s.run.live = .zero) : Balance extra ⟨s, []⟩ where
  degree_eq x := by
    have hx := h.balanced x
    rw [count_requested] at hx
    simp only [outstanding, List.count_nil]
    omega
  reached x hx := h.contains_of_reachable
    (fun k hk => by rw [count_requested, if_pos hk]; omega) hx
  release_built := by simp
  live_eq := by
    rw [hlive]
    unfold heldCount
    rw [h.unbuilt]
    rfl
  least_nonneg := by
    rw [hlive]
    exact Int.le_refl _

end TextIndex.Run
