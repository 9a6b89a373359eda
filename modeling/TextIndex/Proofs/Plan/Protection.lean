import Mathlib.Data.List.Perm.Subperm
import TextIndex.Proofs.Plan.Calls
import TextIndex.Proofs.Plan.Conservation

/-!
# Protection follows the consumers

A manager may build a kind in the storage of an unprotected requirement. This is safe because the
protected kinds are always those with two consumers or more, and the requested ones that had so many
at first (`Guarded`): when a kind is about to be built, each of its requirements has that kind as a
consumer, so an unprotected one has no other (`Guarded.last_consumer`).

A manager that writes protections down agrees with the run at every moment (`Agrees`).
-/

set_option autoImplicit false

namespace TextIndex

variable {K E S : Type}

/-! ## Managers that write protections down -/

/-- `held` reads off the state of a manager which kinds were protected and not unprotected since. -/
structure Manager.Records (m : Manager K E S) (held : S → K → Prop) : Prop where
  protect : ∀ k s j, held (m.protect k s) j ↔ held s j ∨ j = k
  unprotect : ∀ k s j, held (m.unprotect k s) j ↔ held s j ∧ j ≠ k
  other : ∀ call s j, call.action ≠ .protect → call.action ≠ .unprotect →
    (held (m.after s call) j ↔ held s j)

/-- A watched manager reaches the state that it would reach unwatched, and one call is written down. -/
theorem Traced.reached_ask (event : Event K) (call : EStateM E S Unit) (t : Traced K S) :
    ∃ accepted, Manager.reached (Traced.ask event call t) =
      ⟨Manager.reached (call t.inner), t.log ++ [⟨event, accepted⟩]⟩ := by
  unfold Traced.ask
  cases call t.inner with
  | ok _ s => exact ⟨true, rfl⟩
  | error _ s => exact ⟨false, rfl⟩

/-- Watching a manager leaves its calls as they are and writes them down. -/
theorem Manager.after_traced (m : Manager K E S) (t : Traced K S) (call : Event K) :
    ∃ accepted, m.traced.after t call = ⟨m.after t.inner call, t.log ++ [⟨call, accepted⟩]⟩ := by
  cases call with
  | ensure k => exact Traced.reached_ask ..
  | construct k compressed => exact Traced.reached_ask ..
  | compress k => exact Traced.reached_ask ..
  | discard k intermediate => exact ⟨true, rfl⟩
  | protect k => exact ⟨true, rfl⟩
  | unprotect k => exact ⟨true, rfl⟩

/-- A watched manager still writes down what it wrote down before. -/
theorem Manager.Records.traced {m : Manager K E S} {held : S → K → Prop} (h : m.Records held) :
    m.traced.Records fun t j => held t.inner j where
  protect k t j := h.protect k t.inner j
  unprotect k t j := h.unprotect k t.inner j
  other call t j hprotect hunprotect := by
    obtain ⟨accepted, heq⟩ := m.after_traced t call
    rw [heq]
    exact h.other call t.inner j hprotect hunprotect

variable [DecidableEq K]

/-- The kinds that were protected and not unprotected since. -/
def Log.protectedKinds (log : Log K) : KindSet K :=
  log.foldl (fun held e => match e.event with
    | .protect k => held.insert k
    | .unprotect k => held.erase k
    | _ => held) .empty

/-- The log itself is such a record. -/
theorem Manager.records_log (m : Manager K E S) :
    m.traced.Records fun t j => j ∈ t.log.protectedKinds where
  protect k t j := by
    show j ∈ Log.protectedKinds (t.log ++ [⟨.protect k, true⟩]) ↔ _
    simp only [Log.protectedKinds, List.foldl_append, List.foldl_cons, List.foldl_nil,
      KindSet.mem_insert]
  unprotect k t j := by
    show j ∈ Log.protectedKinds (t.log ++ [⟨.unprotect k, true⟩]) ↔ _
    simp only [Log.protectedKinds, List.foldl_append, List.foldl_cons, List.foldl_nil,
      KindSet.mem_erase]
  other call t j hprotect hunprotect := by
    obtain ⟨accepted, heq⟩ := m.after_traced t call
    rw [heq]
    show j ∈ Log.protectedKinds (t.log ++ [⟨call, accepted⟩]) ↔ _
    unfold Log.protectedKinds
    rw [List.foldl_append, List.foldl_cons, List.foldl_nil]
    cases call with
    | protect k => exact absurd rfl hprotect
    | unprotect k => exact absurd rfl hunprotect
    | _ => rfl

/-- Of the kinds that are needed for the request and require `k`, only `last` has still to be built. -/
def Log.LastConsumer (r : Registry K) (requested : List K) (log : Log K) (k last : K) : Prop :=
  ∀ y, (r.Reachable requested y ∧ k ∈ r.requirements y ∧ y ∉ log.builtKinds) ↔ y = last

namespace Run

/-! ## The protected kinds of a run -/

/-- The protected kinds are those with several consumers, and the requested ones that had several at
first. -/
structure Guarded (first : K → Nat) (r : Run K) : Prop where
  protected_iff : ∀ k, k ∈ r.protectedKinds ↔
    2 ≤ r.degrees.degree k ∨ (k ∈ r.requestedKinds ∧ 2 ≤ first k)
  degree_le : ∀ k, r.degrees.degree k ≤ first k

/-- Lowering a degree keeps all degrees below their first values. -/
theorem degree_withDegree_le {r : Run K} {first : K → Nat} (h : ∀ k, r.degrees.degree k ≤ first k)
    {k : K} {n : Nat} (hn : n ≤ r.degrees.degree k) (j : K) :
    (r.withDegree k n).degrees.degree j ≤ first j := by
  rw [degree_withDegree]
  split
  · next heq =>
    rw [heq]
    exact Nat.le_trans hn (h k)
  · exact h j

/-- A kind with its last consumer before it, other than the client, is not protected. -/
theorem Guarded.not_protected {first : K → Nat} {r : Run K} (h : Guarded first r) {k : K}
    (hdeg : r.degrees.degree k = 1) (hk : k ∉ r.requestedKinds) : k ∉ r.protectedKinds := by
  rw [h.protected_iff]
  rintro (htwo | hreq)
  · omega
  · exact hk hreq.1

/-- A kind that the client did not ask for stops being protected with one consumer left, or none. -/
theorem Guarded.erase {first : K → Nat} {r r' : Run K} (h : Guarded first r) {k : K} {n : Nat}
    (hk : k ∉ r.requestedKinds) (hn : n ≤ 1) (hle : n ≤ r.degrees.degree k)
    (hdegrees : r'.degrees = (r.withDegree k n).degrees)
    (hprotected : r'.protectedKinds = r.protectedKinds.erase k)
    (hrequested : r'.requestedKinds = r.requestedKinds) : Guarded first r' where
  protected_iff j := by
    rw [hdegrees, hprotected, hrequested, KindSet.mem_erase, degree_withDegree]
    by_cases hj : j = k
    · subst hj
      rw [if_pos rfl]
      constructor
      · exact fun hmem => absurd rfl hmem.2
      · rintro (htwo | hreq)
        · omega
        · exact absurd hreq.1 hk
    · rw [if_neg hj, and_iff_left hj]
      exact h.protected_iff j
  degree_le := by
    rw [hdegrees]
    exact degree_withDegree_le h.degree_le hle

/-- Every step keeps the protected kinds those with several consumers. -/
theorem Guarded.step {m : Manager K E S} {first slack : K → Nat} {c c' : Stage K S}
    (h : Guarded first c.session.run) (hbalance : Balance slack c) (hstep : Step m c c') :
    Guarded first c'.session.run := by
  cases hstep with
  | releaseLast hdeg =>
    exact h.erase (hbalance.not_requested_of_last hdeg) (Nat.zero_le 1) (Nat.zero_le _) rfl rfl rfl
  | @releaseToLast s k tasks hdeg hk =>
    have hle : 1 ≤ s.run.degrees.degree k := by omega
    exact h.erase hk (Nat.le_refl 1) hle rfl rfl rfl
  | @releaseShared s k n tasks hdeg hshared =>
    have hle : ∀ j, s.run.degrees.degree j ≤ first j := h.degree_le
    refine ⟨fun j => ?_, degree_withDegree_le hle (by omega)⟩
    have hfirst := hle k
    have hold : j ∈ s.run.protectedKinds ↔
        2 ≤ s.run.degrees.degree j ∨ (j ∈ s.run.requestedKinds ∧ 2 ≤ first j) := h.protected_iff j
    show j ∈ s.run.protectedKinds ↔ 2 ≤ (s.run.withDegree k (n + 1)).degrees.degree j ∨
      (j ∈ s.run.requestedKinds ∧ 2 ≤ first j)
    rw [degree_withDegree, hold]
    by_cases hj : j = k
    · -- several consumers are left, or the client asked for the kind and had others beside it
      subst hj
      rw [if_pos rfl]
      constructor
      · intro _
        rcases hshared with hn | hreq
        · exact Or.inl (by omega)
        · exact Or.inr ⟨hreq, by omega⟩
      · intro _
        exact Or.inl (by omega)
    · rw [if_neg hj]
  | consult _ => exact ⟨h.protected_iff, h.degree_le⟩
  | construct _ _ => exact ⟨h.protected_iff, h.degree_le⟩
  | keepByproduct _ => exact h
  | dropByproduct _ => exact ⟨h.protected_iff, h.degree_le⟩
  | settleSkip _ => exact h
  | settleDone _ _ => exact ⟨h.protected_iff, h.degree_le⟩

/-- A step that fails changes neither degrees nor protected kinds. -/
theorem Guarded.stop {m : Manager K E S} {first : K → Nat} {c : Stage K S} {e : ScheduleError K E}
    {t : Session K S} (h : Guarded first c.session.run) (hstop : Stop m c e t) :
    Guarded first t.run := by
  cases hstop <;> exact ⟨h.protected_iff, h.degree_le⟩

/-- Members at which a condition holds at most once are the same. -/
theorem eq_of_countP_le_one {l : List K} {p : K → Bool} (h : l.countP p ≤ 1)
    {x y : K} (hx : x ∈ l) (hpx : p x = true) (hy : y ∈ l) (hpy : p y = true) : x = y := by
  by_contra hne
  have hsub : [x, y] ⊆ l.filter p := by
    intro z hz
    rcases List.mem_pair.1 hz with rfl | rfl
    · exact List.mem_filter.2 ⟨hx, hpx⟩
    · exact List.mem_filter.2 ⟨hy, hpy⟩
  have hle := (List.subperm_of_subset (by simpa using hne) hsub).length_le
  rw [← List.countP_eq_length_filter] at hle
  simp only [List.length_cons, List.length_nil] at hle
  omega

/-- An unprotected requirement of a kind that is about to be built is not requested, and nothing else
that is needed waits for it. -/
theorem Guarded.last_consumer {first slack : K → Nat} {s : Session K S}
    (h : Guarded first s.run) (hbalance : Balance slack ⟨s, []⟩) {k q : K} {top : Bool}
    (hready : s.run.Ready k top) (hq : q ∈ s.run.registry.requirements k)
    (hfree : q ∉ s.run.protectedKinds) :
    q ∉ s.run.requestedKinds ∧ ∀ y, s.run.registry.Reachable s.run.requestedKinds.toList y →
      q ∈ s.run.registry.requirements y → y ∉ s.run.constructedKinds → y = k := by
  rw [h.protected_iff] at hfree
  have hcontains : ∀ y, s.run.registry.Reachable s.run.requestedKinds.toList y →
      s.run.degrees.Contains y := hbalance.reached
  have hpos : 0 < s.run.consumers q :=
    consumers_pos (hcontains k hready.wanted.reachable) hready.unbuilt hq
  have hdegree := hbalance.degree_eq q
  simp only [outstanding, List.count_nil] at hdegree
  have hk : q ∉ s.run.requestedKinds := fun hreq => by
    rw [if_pos hreq] at hdegree
    omega
  refine ⟨hk, fun y hy hqy hnew => ?_⟩
  have hone : s.run.consumers q ≤ 1 := by omega
  exact eq_of_countP_le_one hone (hcontains y hy) (by simpa using ⟨hnew, hqy⟩)
    (hcontains k hready.wanted.reachable) (by simpa using ⟨hready.unbuilt, hq⟩)

/-! ## Records of a manager -/

/-- What the manager has written down as protected is what the run holds as protected. -/
def Agrees (held : S → K → Prop) (s : Session K S) : Prop :=
  ∀ k, held s.manager k ↔ k ∈ s.run.protectedKinds

section Records

variable {m : Manager K E S} {held : S → K → Prop} (hm : m.Records held)

include hm

omit [DecidableEq K] in
/-- A call that neither protects nor unprotects keeps the agreement. -/
theorem Agrees.note {s t : Session K S} (h : Agrees held s) (call : Event K)
    (hprotect : call.action ≠ .protect) (hunprotect : call.action ≠ .unprotect)
    (hmanager : t.manager = m.after s.manager call)
    (hkinds : ∀ k, k ∈ t.run.protectedKinds ↔ k ∈ s.run.protectedKinds) : Agrees held t := by
  intro k
  rw [hmanager, hm.other call _ k hprotect hunprotect, hkinds]
  exact h k

/-- A manager that writes protections down agrees with the run throughout a request. -/
theorem Agrees.requestSteps {s t : Session K S} (h : Agrees held s)
    (hsteps : RequestSteps m s t) : Agrees held t := by
  induction hsteps with
  | refl => exact h
  | tail _ hstep ih =>
    cases hstep with
    | @ensured k t hok =>
      exact ih.note hm (.ensure k) (by simp [Event.action]) (by simp [Event.action])
        (Manager.reached_of_ok hok).symm fun _ => Iff.rfl
    | @refused k e t herror =>
      exact ih.note hm (.ensure k) (by simp [Event.action]) (by simp [Event.action])
        (Manager.reached_of_error herror).symm fun _ => Iff.rfl
    | counted k =>
      unfold Run.counted
      split
      · intro j
        show held (m.protect k _) j ↔ j ∈ KindSet.insert _ k
        rw [hm.protect, KindSet.mem_insert, ih j]
      · exact ih

/-- A step keeps the agreement. The last release erases a kind that was not protected any more. -/
theorem Agrees.step {first slack : K → Nat} {c c' : Stage K S} (h : Agrees held c.session)
    (hguarded : Guarded first c.session.run) (hbalance : Balance slack c) (hstep : Step m c c') :
    Agrees held c'.session := by
  cases hstep with
  | @construct s k top t hready hok =>
    exact h.note hm (.construct k (s.run.mode = .compressed)) (by simp [Event.action])
      (by simp [Event.action]) (Manager.reached_of_ok hok).symm fun _ => Iff.rfl
  | @dropByproduct s k tasks hdeg =>
    exact h.note hm (.discard k true) (by simp [Event.action]) (by simp [Event.action]) rfl
      fun _ => Iff.rfl
  | @releaseLast s k tasks hdeg =>
    refine h.note hm (.discard k (k ∉ s.run.requestedKinds)) (by simp [Event.action])
      (by simp [Event.action]) rfl fun j => ?_
    show j ∈ s.run.protectedKinds.erase k ↔ _
    rw [KindSet.mem_erase, and_iff_left_iff_imp]
    rintro hj rfl
    exact hguarded.not_protected hdeg (hbalance.not_requested_of_last hdeg) hj
  | @releaseToLast s k tasks hdeg hk =>
    intro j
    show held (m.unprotect k s.manager) j ↔ j ∈ s.run.protectedKinds.erase k
    rw [hm.unprotect, KindSet.mem_erase, h j]
  | @settleDone s k t tasks halone hok =>
    exact h.note hm (.compress k) (by simp [Event.action]) (by simp [Event.action])
      (Manager.reached_of_ok hok).symm fun _ => Iff.rfl
  | consult _ => exact h
  | keepByproduct _ => exact h
  | releaseShared _ _ => exact h
  | settleSkip _ => exact h

/-- It agrees with the run also after a step that fails. -/
theorem Agrees.stop {c : Stage K S} {e : ScheduleError K E} {t : Session K S}
    (h : Agrees held c.session) (hstop : Stop m c e t) : Agrees held t := by
  cases hstop with
  | @construct s k top e t hready herror =>
    exact h.note hm (.construct k (s.run.mode = .compressed)) (by simp [Event.action])
      (by simp [Event.action]) (Manager.reached_of_error herror).symm fun _ => Iff.rfl
  | @settle s k e t tasks halone herror =>
    exact h.note hm (.compress k) (by simp [Event.action]) (by simp [Event.action])
      (Manager.reached_of_error herror).symm fun _ => Iff.rfl
  | release _ => exact h

end Records

end Run

end TextIndex
