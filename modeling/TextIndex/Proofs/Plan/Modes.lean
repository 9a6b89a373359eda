import TextIndex.Proofs.Plan.Resume

/-!
# Compression does not change the plan

The modes differ in when kinds are compressed, and in nothing else. With everything that concerns
compression taken out of it (`Draft.uncompressed`), a draft of any mode is a draft of the plain mode:
what the one does next the other does as well, or it is a step that has been taken out altogether
(`Draft.advance_uncompressed`). So all modes come to the same end, as long as nothing is refused.
-/

set_option autoImplicit false

namespace TextIndex

variable {K E S : Type}

/-- The call without what it says about compression; nothing is left of a compression. -/
def Event.uncompressed : Event K → Option (Event K)
  | .compress _ => none
  | .construct k _ => some (.construct k false)
  | .ensure k => some (.ensure k)
  | .discard k intermediate => some (.discard k intermediate)
  | .protect k => some (.protect k)
  | .unprotect k => some (.unprotect k)

/-- All calls of a manager, oldest first, without what they say about compression. -/
def Log.plan (log : Log K) : List (Event K) := (log.map (·.event)).filterMap Event.uncompressed

namespace Run

/-- The task is not about compression. -/
def Task.isPlain : Task K → Bool
  | .settle _ => false
  | .byproduct _ | .release _ => true

variable [DecidableEq K]

/-- The run in plain mode, in which nothing has been compressed. -/
def uncompressed (r : Run K) : Run K :=
  { r with
    mode := .plain
    compressedKinds := .empty
    schedule := { r.schedule with compressed := [] } }

/-- The draft without what is about compression. -/
def Draft.uncompressed (d : Draft K) : Draft K :=
  ⟨⟨d.session.run.uncompressed, d.session.manager.filterMap Event.uncompressed⟩,
    d.tasks.filter Task.isPlain⟩

/-- Of the tasks that a kind brings those of the plain mode are left. -/
theorem filter_tasksAfter (r : Run K) (top : Bool) (k : K) :
    (r.tasksAfter top k).filter Task.isPlain = r.uncompressed.tasksAfter top k := by
  have hplain : ∀ (f : K → Task K) (ks : List K), (∀ k, (f k).isPlain = true) →
      (ks.map f).filter Task.isPlain = ks.map f := by
    intro f ks hf
    rw [List.filter_eq_self]
    intro task htask
    obtain ⟨k, -, rfl⟩ := List.mem_map.1 htask
    exact hf k
  have hlast : (r.lastTasks top k).filter Task.isPlain = r.uncompressed.lastTasks top k := by
    have hnone : r.uncompressed.lastTasks top k = [] :=
      if_neg fun h => absurd h.1 (by simp [Run.uncompressed])
    rw [hnone]
    unfold lastTasks
    split <;> rfl
  unfold tasksAfter
  rw [List.filter_append, List.filter_append, hplain _ _ fun _ => rfl, hplain _ _ fun _ => rfl, hlast]
  rfl

/-- Without what is about compression, a draft does the same next, or nothing. -/
theorem Draft.advance_uncompressed {d d' : Draft K} (h : d.advance = some d') :
    d'.uncompressed = d.uncompressed ∨ d.uncompressed.advance = some d'.uncompressed := by
  obtain ⟨⟨r, calls⟩, tasks⟩ := d
  cases tasks with
  | nil =>
    obtain ⟨⟨k, top⟩, hnext, rfl⟩ := Option.map_eq_some_iff.1 h
    have hnext' : r.uncompressed.next = some (k, top) := hnext
    right
    unfold Draft.uncompressed
    rw [List.filter_nil, advance_construct hnext']
    simp only [List.filterMap_append, filter_tasksAfter]
    rfl
  | cons task tasks =>
    cases task with
    | byproduct k =>
      right
      simp only [Draft.advance] at h
      split at h
      · next hdeg =>
        cases h
        simp only [Draft.uncompressed, List.filterMap_append]
        exact if_pos hdeg
      · next hdeg =>
        cases h
        exact if_neg hdeg
    | release k =>
      right
      simp only [Draft.advance] at h
      split at h
      · cases h
      · next hdeg =>
        cases h
        simp only [Draft.uncompressed, List.filterMap_append]
        exact advance_releaseLast hdeg
      · next n hdeg =>
        split at h
        · next hk =>
          obtain ⟨rfl, hk⟩ := hk
          cases h
          simp only [Draft.uncompressed, List.filterMap_append]
          exact advance_releaseToLast hdeg hk
        · next hk =>
          cases h
          have hshared : n ≠ 0 ∨ k ∈ r.requestedKinds := by
            by_contra hno
            exact hk ⟨by omega, fun hmem => hno (Or.inr hmem)⟩
          have hrest : ((if r.mode = .delayed then [Task.settle k] else []) ++ tasks).filter
              Task.isPlain = tasks.filter Task.isPlain := by
            split <;> rfl
          unfold Draft.uncompressed
          rw [hrest]
          exact advance_releaseShared (r := r.uncompressed) hdeg hshared
    | settle k =>
      left
      simp only [Draft.advance] at h
      split at h
      · cases h
        unfold Draft.uncompressed
        rw [List.filterMap_append]
        exact congrArg (fun calls => (⟨⟨r.uncompressed, calls⟩, _⟩ : Draft K))
          (List.append_nil _)
      · cases h
        rfl

/-- A course of any mode is one of the plain mode. -/
theorem Course.uncompressed {d d' : Draft K} (h : Course d d') :
    Course d.uncompressed d'.uncompressed := by
  induction h with
  | refl => exact .refl
  | tail _ hadvance ih =>
    rcases Draft.advance_uncompressed hadvance with heq | hadvance'
    · rw [heq]
      exact ih
    · exact ih.tail hadvance'

/-- Where a course ends between two kinds, it ends in the plain mode. -/
theorem Draft.advance_uncompressed_eq_none {s : Session K (List (Event K))}
    (h : Draft.advance ⟨s, []⟩ = none) : (Draft.uncompressed ⟨s, []⟩).advance = none := by
  have hnext : s.run.uncompressed.next = none := Option.map_eq_none_iff.1 h
  simp only [Draft.advance, Draft.uncompressed, List.filter_nil, hnext, Option.map_none]

/-! ## Two runs in different modes -/

/-- While a manager does not refuse to make a kind ready, all calls are carried out. -/
theorem RequestSteps.accepted {m : Manager K E S} {I : S → Prop} (hm : m.Prepares I)
    {s t : Session K (Traced K S)} (hs : I s.manager.inner) (h : RequestSteps m.traced s t)
    (hlog : ∀ e ∈ s.manager.log, e.accepted = true) : ∀ e ∈ t.manager.log, e.accepted = true := by
  induction h with
  | refl => exact hlog
  | tail hsteps hstep ih =>
    have hI := RequestSteps.keeps_prepared hm.traced hs hsteps
    cases hstep with
    | @ensured k u hensure =>
      show ∀ e ∈ u.log, e.accepted = true
      rw [Traced.log_of_ask_ok hensure, List.forall_mem_append]
      exact ⟨ih, List.forall_mem_singleton.2 rfl⟩
    | @refused k cause u hrefused =>
      obtain ⟨v, hv, -⟩ := hm.traced.ensure k _ hI
      cases hv.symm.trans hrefused
    | counted k =>
      unfold counted
      split
      · exact List.forall_mem_append.2 ⟨ih, List.forall_mem_singleton.2 rfl⟩
      · exact ih

/-- The steps of an evaluation are carried out. -/
theorem Steps.accepted {m : Manager K E S} {c c' : Stage K (Traced K S)}
    (h : Steps m.traced c c')
    (hlog : ∀ e ∈ c.session.manager.log, e.accepted = true) :
    ∀ e ∈ c'.session.manager.log, e.accepted = true := by
  induction h with
  | refl => exact hlog
  | tail _ hstep ih =>
    rcases hstep.log with heq | ⟨event, -, heq⟩
    · rwa [heq]
    · rw [heq, List.forall_mem_append]
      exact ⟨ih, List.forall_mem_singleton.2 rfl⟩

/-- What two runs have in common that plan alike. -/
structure PlansAlike {S' : Type} (schedule schedule' : Schedule K) (t : Session K (Traced K S))
    (t' : Session K (Traced K S')) : Prop where
  /-- The managers received the same calls in the same order, but for what is about compression. -/
  plan_eq : t'.manager.log.plan = t.manager.log.plan
  constructed_eq : schedule'.constructed = schedule.constructed
  discarded_eq : schedule'.discarded = schedule.discarded
  peakLive_eq : schedule'.peakLive = schedule.peakLive
  degrees_eq : t'.run.degrees = t.run.degrees
  protectedKinds_eq : t'.run.protectedKinds = t.run.protectedKinds
  constructedKinds_eq : t'.run.constructedKinds = t.run.constructedKinds

/-- A run whose manager refuses nothing goes to the end of its course, and all calls are carried out. -/
theorem run_arrives {registry : Registry K} {requested : List K} {mode : Mode} {run : Run K}
    (hstart : Run.start registry requested mode = .ok run) {m : Manager K E S} {I : S → Prop}
    (hm : m.Willing I) {s : S} (hs : I s) :
    ∃ t schedule u, request m.traced ⟨run, Traced.start s⟩ = .ok () t ∧
      evaluate m.traced t = .ok schedule u ∧ Arrives (Stage.draft ⟨t, []⟩) schedule u ∧
      u.manager.log.carriedOut = u.manager.log.map (·.event) := by
  obtain ⟨L⟩ := Registry.nonempty_layers_of_request (start_ok hstart).1
  obtain ⟨t, schedule, u, hrequest, hevaluate⟩ := run_completes_split hstart hm hs
  have hbegin := resumable_of_request hstart hrequest
  refine ⟨t, schedule, u, hrequest, hevaluate, (hbegin.evaluate L).of_ok hevaluate, ?_⟩
  apply Log.carriedOut_eq_map
  obtain ⟨v, hrequestSteps, -, -, rfl⟩ := request_ok hstart hrequest
  obtain ⟨w, hsteps, -, -, rfl⟩ :=
    (evaluate_follows L m.traced hbegin.phase_eq hbegin.sound.registry_eq).of_ok hevaluate
  have hlog : ∀ e ∈ v.manager.log, e.accepted = true :=
    RequestSteps.accepted hm.toPrepares hs hrequestSteps fun e he => absurd he List.not_mem_nil
  exact Steps.accepted hsteps hlog

/-- Runs of the same request in any two modes, with managers that refuse nothing, plan alike. -/
theorem compression_keeps_plan {E' S' : Type} {registry : Registry K} {requested : List K}
    {mode mode' : Mode} {run run' : Run K}
    (hstart : Run.start registry requested mode = .ok run)
    (hstart' : Run.start registry requested mode' = .ok run')
    {m : Manager K E S} {I : S → Prop} (hm : m.Willing I) {s₀ : S} (hs : I s₀)
    {m' : Manager K E' S'} {I' : S' → Prop} (hm' : m'.Willing I') {s₀' : S'} (hs' : I' s₀') :
    ∃ schedule t schedule' t',
      (do request m.traced; evaluate m.traced : SessionM K E (Traced K S) (Schedule K))
        ⟨run, Traced.start s₀⟩ = .ok schedule t ∧
      (do request m'.traced; evaluate m'.traced : SessionM K E' (Traced K S') (Schedule K))
        ⟨run', Traced.start s₀'⟩ = .ok schedule' t' ∧
      PlansAlike schedule schedule' t t' := by
  obtain ⟨u, schedule, t, hrequest, hevaluate, harrives, hlog⟩ := run_arrives hstart hm hs
  obtain ⟨u', schedule', t', hrequest', hevaluate', harrives', hlog'⟩ :=
    run_arrives hstart' hm' hs'
  refine ⟨schedule, t, schedule', t', bind_apply_eq_ok.2 ⟨(), u, hrequest, hevaluate⟩,
    bind_apply_eq_ok.2 ⟨(), u', hrequest', hevaluate'⟩, ?_⟩
  obtain ⟨v, hcourse, hend, rfl, rfl⟩ := harrives
  obtain ⟨v', hcourse', hend', rfl, rfl⟩ := harrives'
  have hbegin : (Stage.draft ⟨u', []⟩).uncompressed = (Stage.draft ⟨u, []⟩).uncompressed := by
    rw [draft_of_requests hstart hstart' hrequest hrequest']
    rfl
  have hplain := hcourse'.uncompressed
  rw [hbegin] at hplain
  have heq : (Stage.draft ⟨v', []⟩).uncompressed = (Stage.draft ⟨v, []⟩).uncompressed :=
    hplain.unique hcourse.uncompressed (Draft.advance_uncompressed_eq_none hend')
      (Draft.advance_uncompressed_eq_none hend)
  exact {
    plan_eq := by
      unfold Log.plan
      rw [← hlog, ← hlog']
      exact congrArg (fun d : Draft K => d.session.manager) heq
    constructed_eq := congrArg (fun d : Draft K => d.session.run.schedule.constructed) heq
    discarded_eq := congrArg (fun d : Draft K => d.session.run.schedule.discarded) heq
    peakLive_eq := congrArg (fun d : Draft K => d.session.run.schedule.peakLive) heq
    degrees_eq := congrArg (fun d : Draft K => d.session.run.degrees) heq
    protectedKinds_eq := congrArg (fun d : Draft K => d.session.run.protectedKinds) heq
    constructedKinds_eq := congrArg (fun d : Draft K => d.session.run.constructedKinds) heq }

/-- A diamond in the mode that compresses late and in the one that builds everything compressed. -/
theorem compression_keeps_plan_on_diamond :
    ∃ run run', Run.start Registry.diamond [3, 0] .delayed = .ok run ∧
      Run.start Registry.diamond [3, 0] .compressed = .ok run' ∧
      ∃ schedule t schedule' t',
        (do request Recorder.manager.traced; evaluate Recorder.manager.traced :
            SessionM Nat (InjectedFailure Nat) (Traced Nat (Recorder Nat)) (Schedule Nat))
          ⟨run, Traced.start (.new none)⟩ = .ok schedule t ∧
        (do request Recorder.manager.traced; evaluate Recorder.manager.traced :
            SessionM Nat (InjectedFailure Nat) (Traced Nat (Recorder Nat)) (Schedule Nat))
          ⟨run', Traced.start (.new none)⟩ = .ok schedule' t' ∧
        PlansAlike schedule schedule' t t' :=
  have hstart : Run.start Registry.diamond [3, 0] .delayed = .ok _ := rfl
  have hstart' : Run.start Registry.diamond [3, 0] .compressed = .ok _ := rfl
  ⟨_, _, hstart, hstart', compression_keeps_plan hstart hstart' Recorder.willing rfl
    Recorder.willing rfl⟩

end Run

end TextIndex
