import TextIndex.Proofs.Plan.Drain
import TextIndex.Proofs.Plan.InPlace

/-!
# When structures are compressed

In delayed mode a requested kind is compressed once, when nobody but its client needs it any more:
right after it has been built, if no other kind waits for it, and otherwise when the last kind that
waited has been built. In the other modes nothing is compressed after it has been built.

Two kinds of tasks lead to a compression, that of settling a kind and that of releasing it, and both
are due only right after the kind or one that requires it has been built (`Caused`). What makes the
two paths complete is `Pending`: a built kind that is left alone with its client has its settling due,
so none is left over when nothing is due any more. That no kind is compressed twice, and none that
was not requested, is counted by `Compressed`.
-/

set_option autoImplicit false

namespace TextIndex

variable {K E S : Type}

namespace Log

/-- The latest attempt to build a kind was made for `k`. -/
def Latest (log : Log K) (k : K) : Prop :=
  ∃ before compressed accepted after, log = before ++ ⟨.construct k compressed, accepted⟩ :: after ∧
    ∀ e ∈ after, e.event.action ≠ .construct

/-- An attempt to build a kind is the latest one. -/
theorem latest_snoc_construct (log : Log K) (k : K) (compressed accepted : Bool) :
    Latest (log ++ [⟨.construct k compressed, accepted⟩]) k :=
  ⟨log, compressed, accepted, [], rfl, by simp⟩

/-- The latest attempt stays the latest until the next. -/
theorem Latest.snoc {log : Log K} {k : K} (h : Latest log k) {e : Entry K}
    (he : e.event.action ≠ .construct) : Latest (log ++ [e]) k := by
  obtain ⟨before, compressed, accepted, after, rfl, hafter⟩ := h
  refine ⟨before, compressed, accepted, after ++ [e], by simp, ?_⟩
  intro x hx
  rcases List.mem_append.1 hx with hx | hx
  · exact hafter x hx
  · rwa [List.mem_singleton.1 hx]

variable [DecidableEq K]

/-- The call compresses a kind. The kind and all that require it have been built, and one of these was
the latest kind to be built. -/
def Settles (r : Registry K) (requested : List K) (before : Log K) (e : Entry K) : Prop :=
  ∀ k, e.event = .compress k → k ∈ before.builtKinds ∧
    (∀ y, r.Reachable requested y → k ∈ r.requirements y → y ∈ before.builtKinds) ∧
      ∃ cause, before.Latest cause ∧ r.Reachable requested cause ∧
        (cause = k ∨ k ∈ r.requirements cause)

/-- The call builds a kind. It passes the flag of the mode. -/
def FlaggedFor (mode : Mode) (e : Entry K) : Prop :=
  ∀ k compressed, e.event = .construct k compressed → compressed = decide (mode = .compressed)

end Log

variable [DecidableEq K]

namespace Run

variable {r : Registry K} {requested : List K} {first : K → Nat} {m : Manager K E S} {s₀ : S}
  {slack : K → Nat} {c c' : Stage K (Traced K S)}

/-! ## What a compression is due to -/

/-- Kinds are settled and released right after themselves or one of their consumers has been built,
and they are settled in delayed mode only. -/
structure Caused (r : Registry K) (requested : List K) (c : Stage K (Traced K S)) : Prop where
  settled : ∀ k, .settle k ∈ c.tasks →
    c.session.run.mode = .delayed ∧ k ∈ c.session.run.constructedKinds
  latest : ∀ k, .settle k ∈ c.tasks ∨ .release k ∈ c.tasks →
    ∃ cause, c.session.manager.log.Latest cause ∧ r.Reachable requested cause ∧
      (cause = k ∨ k ∈ r.requirements cause)

/-- A step that builds nothing, and settles besides at most what it releases. -/
theorem Caused.keep (h : Caused r requested c) (hbalance : Balance slack c)
    (hlog : c'.session.manager.log = c.session.manager.log ∨ ∃ e : Entry K,
      e.event.action ≠ .construct ∧ c'.session.manager.log = c.session.manager.log ++ [e])
    (hmode : c'.session.run.mode = c.session.run.mode)
    (hbuilt : c'.session.run.constructedKinds = c.session.run.constructedKinds)
    (hsettle : ∀ k, .settle k ∈ c'.tasks → .settle k ∈ c.tasks ∨
      (.release k ∈ c.tasks ∧ c.session.run.mode = .delayed))
    (hrelease : ∀ k, .release k ∈ c'.tasks → .release k ∈ c.tasks) : Caused r requested c' where
  settled k hk := by
    rw [hmode, hbuilt]
    rcases hsettle k hk with hk | ⟨hk, hdelayed⟩
    · exact h.settled k hk
    · exact ⟨hdelayed, hbalance.release_built k hk⟩
  latest k hk := by
    have hdue : .settle k ∈ c.tasks ∨ .release k ∈ c.tasks := by
      rcases hk with hk | hk
      · exact (hsettle k hk).imp_right And.left
      · exact Or.inr (hrelease k hk)
    obtain ⟨cause, hlatest, hcause⟩ := h.latest k hdue
    refine ⟨cause, ?_, hcause⟩
    rcases hlog with hlog | ⟨e, he, hlog⟩
    · rwa [hlog]
    · rw [hlog]
      exact hlatest.snoc he

/-- The tasks after a kind has been built are due to that kind. -/
theorem caused_tasksAfter {s : Session K (Traced K S)} {k : K} {top : Bool} {t : Traced K S}
    (htrack : Tracking r requested first m s₀ slack ⟨s, []⟩) (hready : s.run.Ready k top)
    {compressed accepted : Bool}
    (hlog : t.log = s.manager.log ++ [⟨.construct k compressed, accepted⟩]) :
    Caused r requested ⟨⟨s.run.built k, t⟩, s.run.tasksAfter top k⟩ := by
  have hreg : s.run.registry = r := htrack.registry_eq
  have hreach : r.Reachable requested k := (htrack.reachable_iff k).1 hready.wanted.reachable
  have hlatest : t.log.Latest k := by
    rw [hlog]
    exact Log.latest_snoc_construct ..
  have hlast : ∀ x, .settle x ∈ s.run.tasksAfter top k → s.run.mode = .delayed ∧ x = k := by
    intro x hx
    have hx' : .settle x ∈ s.run.lastTasks top k := by simpa [tasksAfter] using hx
    unfold lastTasks at hx'
    split at hx'
    · next hmode => exact ⟨hmode.1, by simpa using hx'⟩
    · exact absurd hx' List.not_mem_nil
  constructor
  · intro x hx
    obtain ⟨hmode, rfl⟩ := hlast x hx
    exact ⟨hmode, KindSet.mem_insert.2 (Or.inr rfl)⟩
  · intro x hx
    refine ⟨k, hlatest, hreach, ?_⟩
    rcases hx with hx | hx
    · exact Or.inl (hlast x hx).2.symm
    · right
      have hpos := List.count_pos_iff.2 hx
      rw [count_release_tasksAfter, hreg] at hpos
      by_contra hno
      rw [if_neg hno] at hpos
      exact absurd hpos (Nat.lt_irrefl 0)

/-- A step leaves only such tasks as the latest building is the cause of. -/
theorem Caused.step (h : Caused r requested c) (htrack : Tracking r requested first m s₀ slack c)
    (hstep : Step m.traced c c') : Caused r requested c' := by
  have htail : ∀ {task : Task K} {tasks : List (Task K)},
      (∀ k, .settle k ∈ tasks → .settle k ∈ task :: tasks ∨
        (.release k ∈ task :: tasks ∧ c.session.run.mode = .delayed)) ∧
      ∀ k, .release k ∈ tasks → .release k ∈ task :: tasks :=
    ⟨fun _ hk => Or.inl (List.mem_cons_of_mem _ hk), fun _ hk => List.mem_cons_of_mem _ hk⟩
  have hbalance := htrack.balance
  cases hstep with
  | construct hready hm => exact caused_tasksAfter htrack hready (Traced.log_of_ask_ok hm)
  | consult _ => exact h.keep hbalance (Or.inl rfl) rfl rfl (fun _ => Or.inl) fun _ => id
  | keepByproduct _ => exact h.keep hbalance (Or.inl rfl) rfl rfl htail.1 htail.2
  | dropByproduct _ =>
    exact h.keep hbalance (Or.inr ⟨_, by simp [Event.action], Traced.log_tell ..⟩) rfl rfl
      htail.1 htail.2
  | releaseLast _ =>
    exact h.keep hbalance (Or.inr ⟨_, by simp [Event.action], Traced.log_tell ..⟩) rfl rfl
      htail.1 htail.2
  | releaseToLast _ _ =>
    exact h.keep hbalance (Or.inr ⟨_, by simp [Event.action], Traced.log_tell ..⟩) rfl rfl
      htail.1 htail.2
  | @releaseShared s k n tasks hdeg hshared =>
    refine h.keep hbalance (Or.inl rfl) rfl rfl ?_ ?_
    · intro x hx
      rcases List.mem_append.1 hx with hx | hx
      · split at hx
        · next hmode =>
          have heq : Task.settle x = .settle k := List.mem_singleton.1 hx
          injection heq with heq
          subst heq
          exact Or.inr ⟨List.mem_cons_self .., hmode⟩
        · exact absurd hx List.not_mem_nil
      · exact htail.1 x hx
    · intro x hx
      rcases List.mem_append.1 hx with hx | hx
      · split at hx <;> simp at hx
      · exact htail.2 x hx
  | settleSkip _ => exact h.keep hbalance (Or.inl rfl) rfl rfl htail.1 htail.2
  | settleDone _ hm =>
    exact h.keep hbalance (Or.inr ⟨_, by simp [Event.action], Traced.log_of_ask_ok hm⟩) rfl rfl
      htail.1 htail.2

/-- A kind that is left alone with its client has no consumer to come. -/
theorem Balance.consumers_of_alone {s : Session K S} {tasks : List (Task K)} {k : K}
    (h : Balance slack ⟨s, tasks⟩) (halone : s.run.Alone k) : s.run.consumers k = 0 := by
  obtain ⟨hk, hdeg, -⟩ := halone
  have hout := h.degree_eq k
  simp only [outstanding, if_pos hk, hdeg] at hout
  omega

/-- A kind is compressed when it and its consumers have been built, the last of them just now. -/
theorem Caused.calls_settle (h : Caused r requested c)
    (htrack : Tracking r requested first m s₀ slack c) {event : Event K} (hcalls : c.Calls event)
    (accepted : Bool) : Log.Settles r requested c.session.manager.log ⟨event, accepted⟩ := by
  rintro k rfl
  obtain ⟨tasks, htasks, halone⟩ := hcalls
  have hdue : .settle k ∈ c.tasks := by
    rw [htasks]
    exact List.mem_cons_self ..
  refine ⟨(htrack.mem_built k).2 (h.settled k hdue).2, ?_, h.latest k (Or.inl hdue)⟩
  intro y hy hky
  rw [htrack.mem_built]
  by_contra hnew
  have hpos : 0 < c.session.run.consumers k := by
    apply consumers_pos ((htrack.contains_iff y).2 hy) hnew
    rw [htrack.registry_eq]
    exact hky
  exact absurd (htrack.balance.consumers_of_alone halone) (Nat.ne_of_gt hpos)

/-! ## What is compressed -/

/-- A built kind that is left alone with its client is to be settled. -/
def Pending (c : Stage K S) : Prop :=
  c.session.run.mode = .delayed → ∀ k ∈ c.session.run.constructedKinds, c.session.run.Alone k →
    .settle k ∈ c.tasks

/-- A kind that is built for another one has that one as a consumer, besides its client. -/
theorem Ready.not_alone {s : Session K S} {k : K} (h : s.run.Ready k false)
    (hbalance : Balance slack ⟨s, []⟩) : ¬ s.run.Alone k := by
  intro halone
  obtain ⟨j, hnew, hreach, hkj⟩ := h.wanted
  have hpos : 0 < s.run.consumers k := consumers_pos (hbalance.reached j hreach) hnew hkj
  exact absurd (hbalance.consumers_of_alone halone) (Nat.ne_of_gt hpos)

/-- A kind that a step leaves alone with its client is to be settled. -/
theorem Pending.step {m : Manager K E S} {c c' : Stage K S} (h : Pending c)
    (hbalance : Balance slack c) (hstep : Step m c c') : Pending c' := by
  intro hmode k hk halone
  -- a task that is done was not the one for `k`, unless it changed `k` itself
  have htail : ∀ {task : Task K} {tasks : List (Task K)}, .settle k ∈ task :: tasks →
      task ≠ .settle k → .settle k ∈ tasks := fun hmem hne =>
    (List.mem_cons.1 hmem).resolve_left (Ne.symm hne)
  cases hstep with
  | consult _ => exact h hmode k hk halone
  | @construct s j top t hready hm =>
    rcases KindSet.mem_insert.1 hk with hk | rfl
    · exact absurd (h hmode k hk halone) List.not_mem_nil
    · cases top with
      | false => exact absurd halone (hready.not_alone hbalance)
      | true =>
        have hlast : s.run.lastTasks true k = [.settle k] := if_pos ⟨hmode, rfl⟩
        show .settle k ∈ s.run.tasksAfter true k
        unfold tasksAfter
        rw [hlast]
        simp
  | keepByproduct _ => exact htail (h hmode k hk halone) (by simp)
  | dropByproduct _ => exact htail (h hmode k hk halone) (by simp)
  | @releaseLast s j tasks hdeg =>
    obtain ⟨hreq, hone, hnew⟩ := halone
    have hone' : (s.run.withDegree j 0).degrees.degree k = 1 := hone
    rw [degree_withDegree] at hone'
    split at hone'
    · omega
    · exact htail (h hmode k hk ⟨hreq, hone', hnew⟩) (by simp)
  | @releaseToLast s j tasks hdeg hj =>
    obtain ⟨hreq, hone, hnew⟩ := halone
    have hne : k ≠ j := by
      rintro rfl
      exact hj hreq
    have hone' : (s.run.withDegree j 1).degrees.degree k = 1 := hone
    rw [degree_withDegree, if_neg hne] at hone'
    exact htail (h hmode k hk ⟨hreq, hone', hnew⟩) (by simp)
  | @releaseShared s j n tasks hdeg hshared =>
    obtain ⟨hreq, hone, hnew⟩ := halone
    have hmode' : s.run.mode = .delayed := hmode
    show .settle k ∈ (if s.run.mode = .delayed then [.settle j] else []) ++ tasks
    rw [if_pos hmode']
    have hone' : (s.run.withDegree j (n + 1)).degrees.degree k = 1 := hone
    rw [degree_withDegree] at hone'
    split at hone'
    · next heq =>
      subst heq
      exact List.mem_cons_self ..
    · exact List.mem_cons_of_mem _ (htail (h hmode k hk ⟨hreq, hone', hnew⟩) (by simp))
  | @settleSkip s j tasks hskip =>
    refine htail (h hmode k hk halone) ?_
    intro heq
    injection heq with heq
    exact hskip (heq ▸ halone)
  | @settleDone s j t tasks hdone hm =>
    obtain ⟨hreq, hone, hnew⟩ := halone
    have hnew' : k ∉ s.run.compressedKinds.insert j := hnew
    rw [KindSet.mem_insert, not_or] at hnew'
    refine htail (h hmode k hk ⟨hreq, hone, hnew'.1⟩) ?_
    intro heq
    injection heq with heq
    exact hnew'.2 heq.symm

/-- The kinds whose compression was asked for are requested ones, in delayed mode, and each was asked
for once. -/
structure Compressed (s : Session K (Traced K S)) : Prop where
  requested : ∀ k ∈ s.run.compressedKinds, s.run.mode = .delayed ∧ k ∈ s.run.requestedKinds
  received : ∀ k, Log.received s.manager.log (.compress k) =
    if k ∈ s.run.compressedKinds then 1 else 0

/-- A call that compresses nothing. -/
theorem Compressed.keep {s s' : Session K (Traced K S)} (h : Compressed s)
    (hlog : s'.manager.log = s.manager.log ∨ ∃ e : Entry K,
      (∀ k, e.event ≠ .compress k) ∧ s'.manager.log = s.manager.log ++ [e])
    (hcompressed : s'.run.compressedKinds = s.run.compressedKinds)
    (hmode : s'.run.mode = s.run.mode)
    (hrequested : s'.run.requestedKinds = s.run.requestedKinds) : Compressed s' where
  requested := by
    rw [hcompressed, hmode, hrequested]
    exact h.requested
  received k := by
    rw [hcompressed, ← h.received k]
    rcases hlog with hlog | ⟨e, he, hlog⟩
    · rw [hlog]
    · rw [hlog, Log.received_snoc, if_neg (he k), Nat.add_zero]

/-- A kind that is left alone with its client is asked for once, whether or not it is compressed. -/
theorem Compressed.ask {s : Session K (Traced K S)} (h : Compressed s) {k : K} {t : Traced K S}
    (hmode : s.run.mode = .delayed) (halone : s.run.Alone k) {accepted : Bool}
    (hlog : t.log = s.manager.log ++ [⟨.compress k, accepted⟩]) (schedule : Schedule K) :
    Compressed (⟨{ s.run with
      compressedKinds := s.run.compressedKinds.insert k
      schedule }, t⟩ : Session K (Traced K S)) where
  requested x hx := by
    rcases KindSet.mem_insert.1 hx with hx | rfl
    · exact h.requested x hx
    · exact ⟨hmode, halone.1⟩
  received x := by
    show Log.received t.log (.compress x) = if x ∈ s.run.compressedKinds.insert k then 1 else 0
    rw [hlog, Log.received_snoc, h.received x]
    by_cases hxk : x = k
    · subst hxk
      rw [if_neg halone.2.2, if_pos rfl, if_pos (KindSet.mem_insert.2 (Or.inr rfl))]
    · have hevent : Event.compress k ≠ Event.compress x := by simpa using Ne.symm hxk
      rw [if_neg hevent, Nat.add_zero]
      simp only [KindSet.mem_insert, hxk, or_false]

/-- A step asks to compress a kind for the first time, if at all. -/
theorem Compressed.step (h : Compressed c.session) (hcaused : Caused r requested c)
    (hstep : Step m.traced c c') : Compressed c'.session := by
  cases hstep with
  | @settleDone s k t tasks halone hm =>
    have hmode := (hcaused.settled k (List.mem_cons_self ..)).1
    exact h.ask hmode halone (Traced.log_of_ask_ok hm) _
  | construct _ hm =>
    exact h.keep (Or.inr ⟨_, by simp, Traced.log_of_ask_ok hm⟩) rfl rfl rfl
  | dropByproduct _ => exact h.keep (Or.inr ⟨_, by simp, Traced.log_tell ..⟩) rfl rfl rfl
  | releaseLast _ => exact h.keep (Or.inr ⟨_, by simp, Traced.log_tell ..⟩) rfl rfl rfl
  | releaseToLast _ _ => exact h.keep (Or.inr ⟨_, by simp, Traced.log_tell ..⟩) rfl rfl rfl
  | consult _ => exact h.keep (Or.inl rfl) rfl rfl rfl
  | releaseShared _ _ => exact h.keep (Or.inl rfl) rfl rfl rfl
  | keepByproduct _ => exact h
  | settleSkip _ => exact h

/-! ## The whole evaluation -/

/-- What the evaluation keeps about compression. -/
structure Settling (r : Registry K) (requested : List K) (c : Stage K (Traced K S)) : Prop where
  caused : Caused r requested c
  pending : Pending c
  compressed : Compressed c.session
  settles : c.session.manager.log.Always (Log.Settles r requested)
  flagged : c.session.manager.log.Always fun _ e => Log.FlaggedFor c.session.run.mode e

/-- A kind is built with the flag of the mode. -/
theorem calls_flagged {event : Event K} (hcalls : c.Calls event) (accepted : Bool) :
    Log.FlaggedFor c.session.run.mode ⟨event, accepted⟩ := by
  rintro k compressed rfl
  exact hcalls.2.2

/-- A step of an evaluation keeps all that is known about compression. -/
theorem Settling.step (h : Settling r requested c)
    (htrack : Tracking r requested first m s₀ slack c) (hstep : Step m.traced c c') :
    Settling r requested c' where
  caused := h.caused.step htrack hstep
  pending := h.pending.step htrack.balance hstep
  compressed := h.compressed.step h.caused hstep
  settles := hstep.always h.settles fun _ hcalls => h.caused.calls_settle htrack hcalls true
  flagged := by
    rw [Steps.mode_eq (.single hstep)]
    exact hstep.always h.flagged fun _ hcalls => calls_flagged hcalls true

/-- Steps of an evaluation keep all that is known about compression. -/
theorem Settling.steps (h : Settling r requested c)
    (htrack : Tracking r requested first m s₀ slack c) (hsteps : Steps m.traced c c') :
    Settling r requested c' := by
  induction hsteps with
  | refl => exact h
  | tail hsteps hstep ih => exact ih.step (htrack.steps hsteps) hstep

/-- After a first request nothing has been built, and nothing compressed. -/
theorem settling_of_request {registry : Registry K} {requested : List K} {mode : Mode} {run : Run K}
    (hstart : Run.start registry requested mode = .ok run) {m : Manager K E S} {s₀ : S}
    {t : Session K (Traced K S)} (hrequest : request m.traced ⟨run, Traced.start s₀⟩ = .ok () t) :
    t.run.mode = mode ∧ Settling registry requested ⟨t, []⟩ := by
  obtain ⟨u, hsteps, hcounted, -, rfl⟩ := request_ok hstart hrequest
  have hrun : run.mode = mode ∧ run.compressedKinds = .empty := by
    obtain ⟨-, rfl⟩ := start_ok hstart
    exact ⟨rfl, rfl⟩
  have hu : u.run.mode = mode ∧ u.run.compressedKinds = .empty := by
    rw [RequestSteps.run_eq hsteps]
    exact hrun
  have hcompress : ∀ k, ∀ e ∈ u.manager.log, e.event ≠ .compress k := fun k =>
    hsteps.event_ne (by simp [Event.action]) (by simp [Event.action])
  refine ⟨hu.1, ⟨by simp, by simp⟩, ?_, ⟨?_, ?_⟩, ?_, ?_⟩
  · intro _ k hk
    have hk' : k ∈ u.run.constructedKinds := hk
    rw [hcounted.unbuilt] at hk'
    exact absurd hk' (KindSet.not_mem_empty k)
  · intro k hk
    have hk' : k ∈ u.run.compressedKinds := hk
    rw [hu.2] at hk'
    exact absurd hk' (KindSet.not_mem_empty k)
  · intro k
    show Log.received u.manager.log (.compress k) = if k ∈ u.run.compressedKinds then 1 else 0
    rw [hu.2, if_neg (KindSet.not_mem_empty k)]
    exact Log.received_of_not_mem (hcompress k)
  · apply Log.always_of_mem
    intro e he before k hevent
    exact absurd hevent (hcompress k e he)
  · apply Log.always_of_mem
    intro e he before k compressed hevent
    exact absurd hevent (hsteps.event_ne (by simp [Event.action]) (by simp [Event.action]) e he)

end Run

end TextIndex
