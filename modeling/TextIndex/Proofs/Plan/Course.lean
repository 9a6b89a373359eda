import Mathlib.Logic.Relation
import TextIndex.Proofs.Plan.Conservation

/-!
# The course of an evaluation

The evaluation phase makes no decision that depends on its manager, except to stop when it is refused
something. What it does next can be read off the state of the run: `Draft.advance` says what that is, for
a draft of a run, in which calls are only taken down.

* A stage with a watched manager, less what cannot be seen of it, is a draft (`Stage.draft`). A step of
  the evaluation phase advances the draft, or does not change it at all (`Step.draft`).
* A draft advances in one way only. All courses from one draft that come to an end come to the same end
  (`Course.unique`), whatever manager served them and however often they were interrupted.
* Two requests for the same kinds that both succeed leave the same draft behind
  (`request_agrees`).
-/

set_option autoImplicit false

namespace TextIndex

variable {K E S : Type}

/-! ## Logs without their refusals -/

namespace Log

/-- The calls that were carried out, oldest first. -/
def carriedOut (log : Log K) : List (Event K) := (log.filter (·.accepted)).map (·.event)

/-- How many calls were refused. -/
def refusals (log : Log K) : Nat := log.countP fun e => !e.accepted

/-- A call that is carried out is the last of those that were. -/
@[simp] theorem carriedOut_snoc (log : Log K) (event : Event K) :
    carriedOut (log ++ [⟨event, true⟩]) = log.carriedOut ++ [event] := by
  simp [carriedOut]

/-- A refused call is none of those that were carried out. -/
@[simp] theorem carriedOut_snoc_refused (log : Log K) (event : Event K) :
    carriedOut (log ++ [⟨event, false⟩]) = log.carriedOut := by
  simp [carriedOut]

/-- If nothing was refused, all calls were carried out. -/
theorem carriedOut_eq_map {log : Log K} (h : ∀ e ∈ log, e.accepted = true) :
    log.carriedOut = log.map (·.event) := by
  unfold carriedOut
  rw [List.filter_eq_self.2 h]

end Log

namespace Run

variable [DecidableEq K]

/-! ## Drafts -/

/-- A stage of which only the calls are kept, oldest first, in place of a manager. -/
abbrev Draft (K : Type) := Stage K (List (Event K))

/-- What the evaluation phase does next if nothing is refused; nothing when all is done. -/
def Draft.advance (d : Draft K) : Option (Draft K) :=
  let r := d.session.run
  let calls := d.session.manager
  match d.tasks with
  | [] => r.next.map fun choice =>
    ⟨⟨r.built choice.1, calls ++ [.construct choice.1 (r.mode = .compressed)]⟩,
      r.tasksAfter choice.2 choice.1⟩
  | .byproduct k :: tasks =>
    if r.degrees.degree k = 0 then
      some ⟨⟨{ r with schedule := r.schedule.addDiscarded k }, calls ++ [.discard k true]⟩, tasks⟩
    else some ⟨d.session, tasks⟩
  | .release k :: tasks =>
    match r.degrees.degree k with
    | 0 => none
    | 1 => some ⟨⟨(r.withDegree k 0).released k,
        calls ++ [.discard k (k ∉ r.requestedKinds)]⟩, tasks⟩
    | n + 2 =>
      if n = 0 ∧ k ∉ r.requestedKinds then
        some ⟨⟨{ r.withDegree k 1 with protectedKinds := r.protectedKinds.erase k },
          calls ++ [.unprotect k]⟩, tasks⟩
      else some ⟨⟨r.withDegree k (n + 1), calls⟩,
        (if r.mode = .delayed then [.settle k] else []) ++ tasks⟩
  | .settle k :: tasks =>
    if r.Alone k then
      some ⟨⟨{ r with
          compressedKinds := r.compressedKinds.insert k
          schedule := r.schedule.addCompressed k }, calls ++ [.compress k]⟩, tasks⟩
    else some ⟨d.session, tasks⟩

section Advance

variable {r : Run K} {calls : List (Event K)} {k : K} {tasks : List (Task K)}

/-- Where no task is left a draft builds what comes next. -/
theorem advance_construct {top : Bool} (h : r.next = some (k, top)) :
    Draft.advance ⟨⟨r, calls⟩, []⟩ =
      some ⟨⟨r.built k, calls ++ [.construct k (r.mode = .compressed)]⟩, r.tasksAfter top k⟩ := by
  simp only [Draft.advance, h, Option.map_some]

/-- A draft discards a kind that loses its last consumer. -/
theorem advance_releaseLast (h : r.degrees.degree k = 1) :
    Draft.advance ⟨⟨r, calls⟩, .release k :: tasks⟩ =
      some ⟨⟨(r.withDegree k 0).released k, calls ++ [.discard k (k ∉ r.requestedKinds)]⟩,
        tasks⟩ := by
  simp only [Draft.advance, h]

/-- A draft unprotects a kind that keeps one consumer, unless the client asked for it. -/
theorem advance_releaseToLast (h : r.degrees.degree k = 2) (hk : k ∉ r.requestedKinds) :
    Draft.advance ⟨⟨r, calls⟩, .release k :: tasks⟩ =
      some ⟨⟨{ r.withDegree k 1 with protectedKinds := r.protectedKinds.erase k },
        calls ++ [.unprotect k]⟩, tasks⟩ := by
  simp only [Draft.advance, h]
  exact if_pos ⟨trivial, hk⟩

/-- A draft leaves a kind alone that keeps several consumers, or its client besides another one. -/
theorem advance_releaseShared {n : Nat} (h : r.degrees.degree k = n + 2)
    (hk : n ≠ 0 ∨ k ∈ r.requestedKinds) :
    Draft.advance ⟨⟨r, calls⟩, .release k :: tasks⟩ =
      some ⟨⟨r.withDegree k (n + 1), calls⟩,
        (if r.mode = .delayed then [.settle k] else []) ++ tasks⟩ := by
  have hno : ¬ (n = 0 ∧ k ∉ r.requestedKinds) := fun h => hk.elim (· h.1) h.2
  simp only [Draft.advance, h, if_neg hno]

end Advance

/-- From one draft to another in any number of advances. -/
abbrev Course : Draft K → Draft K → Prop :=
  Relation.ReflTransGen fun d d' => d.advance = some d'

/-- Courses from one draft end alike. -/
theorem Course.unique {d a b : Draft K} (ha : Course d a) (hb : Course d b)
    (haEnd : a.advance = none) (hbEnd : b.advance = none) : a = b := by
  have honly : Relator.RightUnique fun d d' : Draft K => d.advance = some d' := by
    intro d a b ha hb
    exact Option.some.inj (ha.symm.trans hb)
  rcases Relation.ReflTransGen.total_of_right_unique honly ha hb with hab | hba
  · rcases Relation.ReflTransGen.cases_head hab with heq | ⟨c, hc, -⟩
    · exact heq
    · cases haEnd.symm.trans hc
  · rcases Relation.ReflTransGen.cases_head hba with heq | ⟨c, hc, -⟩
    · exact heq.symm
    · cases hbEnd.symm.trans hc

/-! ## Stages as drafts -/

/-- The run, with a cost table that remembers nothing. -/
def forgetful (r : Run K) : Run K := { r with costs := .new r.registry }

/-- The cost table orders siblings as if it remembered nothing. -/
def Unbiased (r : Run K) : Prop :=
  ∀ ks, r.costs.siblings ks = (CostTable.new r.registry).siblings ks

/-- A cost table that remembers makes no other choice. -/
theorem next_forgetful {r : Run K} (h : r.Unbiased) : r.forgetful.next = r.next := by
  have hregistry : r.forgetful.costs.registry = r.costs.registry := rfl
  exact CostTable.next_congr hregistry (fun ks => (h ks).symm) _ _

/-- Steps leave no trace in how siblings are put in order. -/
theorem Unbiased.steps {m : Manager K E S} {c c' : Stage K S} (h : c.session.run.Unbiased)
    (hsteps : Steps m c c') : c'.session.run.Unbiased := by
  intro ks
  rw [hsteps.siblings_eq, hsteps.registry_eq]
  exact h ks

omit [DecidableEq K] in
/-- What can be seen of a stage: not the manager itself, not what it refused, and not which costs are
remembered. -/
def Stage.draft (c : Stage K (Traced K S)) : Draft K :=
  ⟨⟨c.session.run.forgetful, c.session.manager.log.carriedOut⟩, c.tasks⟩

omit [DecidableEq K] in
/-- A call that was carried out is seen. -/
theorem draft_of_log {log : Log K} {event : Event K} {t : Traced K S}
    (h : t.log = log ++ [⟨event, true⟩]) (r : Run K) (tasks : List (Task K)) :
    Stage.draft ⟨⟨r, t⟩, tasks⟩ = ⟨⟨r.forgetful, log.carriedOut ++ [event]⟩, tasks⟩ := by
  unfold Stage.draft
  rw [h, Log.carriedOut_snoc]

/-- A step advances the draft, unless it only looks something up. -/
theorem Step.draft {m : Manager K E S} {c c' : Stage K (Traced K S)} (h : Step m.traced c c')
    (hfair : c.session.run.Unbiased) : c'.draft = c.draft ∨ c.draft.advance = some c'.draft := by
  cases h with
  | @consult s costs hreg _ =>
    exact Or.inl (congrArg (fun r => (⟨⟨{ s.run with costs := .new r }, _⟩, []⟩ : Draft K)) hreg)
  | @construct s k top t hready hm hnext =>
    right
    rw [draft_of_log (Traced.log_of_ask_ok hm)]
    exact advance_construct ((next_forgetful hfair).trans hnext)
  | keepByproduct hdeg => exact Or.inr (if_neg hdeg)
  | @dropByproduct s k tasks hdeg =>
    right
    have hlog : (m.traced.discard k true s.manager).log =
      s.manager.log ++ [⟨.discard k true, true⟩] := rfl
    rw [draft_of_log hlog]
    exact if_pos hdeg
  | @releaseLast s k tasks hdeg =>
    right
    have hlog : (m.traced.discard k (k ∉ s.run.requestedKinds) s.manager).log =
      s.manager.log ++ [⟨.discard k (k ∉ s.run.requestedKinds), true⟩] := rfl
    rw [draft_of_log hlog]
    exact advance_releaseLast hdeg
  | @releaseToLast s k tasks hdeg hk =>
    right
    have hlog : (m.traced.unprotect k s.manager).log =
      s.manager.log ++ [⟨.unprotect k, true⟩] := rfl
    rw [draft_of_log hlog]
    exact advance_releaseToLast hdeg hk
  | @releaseShared s k n tasks hdeg hk => exact Or.inr (advance_releaseShared hdeg hk)
  | settleSkip halone => exact Or.inr (if_neg halone)
  | @settleDone s k t tasks halone hm =>
    right
    rw [draft_of_log (Traced.log_of_ask_ok hm)]
    exact if_pos halone

/-- The steps of an evaluation are a course. -/
theorem Steps.course {m : Manager K E S} {c c' : Stage K (Traced K S)} (h : Steps m.traced c c')
    (hfair : c.session.run.Unbiased) : Course c.draft c'.draft := by
  induction h with
  | refl => exact .refl
  | tail hsteps hstep ih =>
    rcases hstep.draft (hfair.steps hsteps) with heq | hadvance
    · rw [heq]
      exact ih
    · exact ih.tail hadvance

omit [DecidableEq K] in
/-- A refusal is not seen. -/
theorem draft_of_refused {log : Log K} {event : Event K} {t : Traced K S}
    (h : t.log = log ++ [⟨event, false⟩]) (r : Run K) (tasks : List (Task K)) :
    Stage.draft ⟨⟨r, t⟩, tasks⟩ = ⟨⟨r.forgetful, log.carriedOut⟩, tasks⟩ := by
  unfold Stage.draft
  rw [h, Log.carriedOut_snoc_refused]

/-- The course from `start` has come to its end, and the evaluation that ended it has returned
`schedule` and left `t`. -/
def Arrives (start : Draft K) (schedule : Schedule K) (t : Session K (Traced K S)) : Prop :=
  ∃ u : Session K (Traced K S), Course start (Stage.draft ⟨u, []⟩) ∧
    Draft.advance (Stage.draft ⟨u, []⟩) = none ∧ schedule = u.run.schedule ∧
    t = { u with run := { u.run with phase := .evaluated, schedule := .empty } }

/-- An evaluation that succeeds goes to the end of the course. -/
theorem evaluate_arrives {r : Registry K} (L : r.Layers) (m : Manager K E S)
    {s : Session K (Traced K S)} (hphase : s.run.phase = .requested) (hreg : s.run.registry = r)
    (hfair : s.run.Unbiased) :
    Ends (evaluate m.traced) s (fun schedule t => Arrives (Stage.draft ⟨s, []⟩) schedule t)
      fun e t => ∃ c, Steps m.traced ⟨s, []⟩ c ∧ Stop m.traced c e t := by
  refine (evaluate_follows L m.traced hphase hreg).mono ?_ (fun _ _ h => h)
  rintro schedule t ⟨u, hsteps, hall, hschedule, ht⟩
  have hend : u.run.forgetful.next = none := by
    apply CostTable.next_of_built
    intro k hk
    apply hall k
    rwa [← show u.run.requestedKinds = s.run.requestedKinds from hsteps.requestedKinds_eq]
  refine ⟨u, hsteps.course hfair, ?_, hschedule, ht⟩
  simp only [Draft.advance, Stage.draft, hend, Option.map_none]

/-! ## Two requests -/

section Agree

variable {E' S' : Type}

/-- The same consumers have been counted in both sessions, and both managers have carried out the same
calls. -/
structure Agree (s : Session K (Traced K S)) (s' : Session K (Traced K S')) : Prop where
  registry_eq : s'.run.registry = s.run.registry
  degrees_eq : s'.run.degrees = s.run.degrees
  protectedKinds_eq : s'.run.protectedKinds = s.run.protectedKinds
  calls_eq : s'.manager.log.carriedOut = s.manager.log.carriedOut

/-- If both programs succeed, sessions that agreed before agree afterwards. -/
def Agreeing (x : SessionM K E (Traced K S) Unit) (x' : SessionM K E' (Traced K S') Unit) : Prop :=
  ∀ {s t : Session K (Traced K S)} {s' t' : Session K (Traced K S')}, Agree s s' →
    x s = .ok () t → x' s' = .ok () t' → Agree t t'

omit [DecidableEq K] in
/-- Programs that agree one after the other agree as a whole. -/
theorem agreeing_bind {x y : SessionM K E (Traced K S) Unit}
    {x' y' : SessionM K E' (Traced K S') Unit} (hx : Agreeing x x') (hy : Agreeing y y') :
    Agreeing (x >>= fun _ => y) (x' >>= fun _ => y') := by
  intro s t s' t' h hok hok'
  obtain ⟨⟨⟩, u, hu, ht⟩ := bind_apply_eq_ok.1 hok
  obtain ⟨⟨⟩, u', hu', ht'⟩ := bind_apply_eq_ok.1 hok'
  exact hy (hx h hu hu') ht ht'

omit [DecidableEq K] in
/-- Walks that agree on each kind agree on a list of them. -/
theorem agreeing_forM {walk : K → SessionM K E (Traced K S) Unit}
    {walk' : K → SessionM K E' (Traced K S') Unit} (ks : List K)
    (h : ∀ k, Agreeing (walk k) (walk' k)) : Agreeing (ks.forM walk) (ks.forM walk') := by
  induction ks with
  | nil =>
    intro s t s' t' hs hok hok'
    cases hok
    cases hok'
    exact hs
  | cons k ks ih => exact agreeing_bind (h k) ih

omit [DecidableEq K] in
/-- A watched call that succeeds is written down and leaves the run alone. -/
theorem ask_traced_ok {k : K} {event : Event K} {call : EStateM E S Unit}
    {s t : Session K (Traced K S)} (h : ask k (Traced.ask event call) s = .ok () t) :
    t.run = s.run ∧ t.manager.log = s.manager.log ++ [⟨event, true⟩] := by
  unfold ask at h
  split at h
  · next hcall =>
    cases h
    exact ⟨rfl, Traced.log_of_ask_ok hcall⟩
  · cases h

omit [DecidableEq K] in
/-- Making a kind ready agrees with itself, whatever the managers. -/
theorem agreeing_ensure (m : Manager K E S) (m' : Manager K E' S') (k : K) :
    Agreeing (ask k (m.traced.ensure k)) (ask k (m'.traced.ensure k)) := by
  intro s t s' t' hs hok hok'
  obtain ⟨hrun, hlog⟩ := ask_traced_ok hok
  obtain ⟨hrun', hlog'⟩ := ask_traced_ok hok'
  constructor
  · rw [hrun, hrun', hs.registry_eq]
  · rw [hrun, hrun', hs.degrees_eq]
  · rw [hrun, hrun', hs.protectedKinds_eq]
  · rw [hlog, hlog', Log.carriedOut_snoc, Log.carriedOut_snoc, hs.calls_eq]

/-- Counting a consumer agrees with itself, whatever the managers. -/
theorem agreeing_countConsumer (m : Manager K E S) (m' : Manager K E' S') (k : K) :
    Agreeing (countConsumer m.traced k) (countConsumer m'.traced k) := by
  intro s t s' t' hs hok hok'
  cases (countConsumer_eq m.traced k s).symm.trans hok
  cases (countConsumer_eq m'.traced k s').symm.trans hok'
  unfold counted
  rw [hs.degrees_eq, hs.protectedKinds_eq]
  split
  · refine ⟨hs.registry_eq, rfl, rfl, ?_⟩
    show Log.carriedOut (s'.manager.log ++ [⟨.protect k, true⟩]) =
      Log.carriedOut (s.manager.log ++ [⟨.protect k, true⟩])
    rw [Log.carriedOut_snoc, Log.carriedOut_snoc, hs.calls_eq]
  · exact ⟨hs.registry_eq, rfl, hs.protectedKinds_eq, hs.calls_eq⟩

/-- Counting a kind and what it requires agrees with itself, whatever the managers. -/
theorem agreeing_requestKind (m : Manager K E S) (m' : Manager K E' S') (depth : Nat) :
    ∀ k, Agreeing (requestKind m.traced depth k) (requestKind m'.traced depth k) := by
  induction depth with
  | zero =>
    intro k s t s' t' hs hok hok'
    cases hok
    cases hok'
    exact hs
  | succ depth ih =>
    intro k
    unfold requestKind
    apply agreeing_bind (agreeing_ensure m m' k)
    intro s t s' t' hs hok hok'
    rw [get_bind_apply] at hok hok'
    rw [hs.registry_eq, hs.degrees_eq] at hok'
    split at hok
    · next hnew =>
      rw [if_pos hnew] at hok'
      exact agreeing_bind (agreeing_forM _ ih) (agreeing_countConsumer m m' k) hs hok hok'
    · next hold =>
      rw [if_neg hold] at hok'
      exact agreeing_countConsumer m m' k hs hok hok'

/-- Requests for the same kinds of the same registry agree if both succeed. -/
theorem request_agrees {m : Manager K E S} {m' : Manager K E' S'}
    {s t : Session K (Traced K S)} {s' t' : Session K (Traced K S')} (hs : Agree s s')
    (hrequested : s'.run.requestedKinds = s.run.requestedKinds) (hphase : s.run.phase = .fresh)
    (hphase' : s'.run.phase = .fresh) (hrequest : request m.traced s = .ok () t)
    (hrequest' : request m'.traced s' = .ok () t') : Agree t t' := by
  unfold request at hrequest hrequest'
  rw [get_bind_apply] at hrequest hrequest'
  simp only [hphase, if_true] at hrequest
  simp only [hphase', hrequested, hs.registry_eq, if_true] at hrequest'
  obtain ⟨⟨⟩, u, hu, ht⟩ := bind_apply_eq_ok.1 hrequest
  obtain ⟨⟨⟩, u', hu', ht'⟩ := bind_apply_eq_ok.1 hrequest'
  cases ht
  cases ht'
  have hagree := agreeing_forM _ (agreeing_requestKind m m' _) hs hu hu'
  exact ⟨hagree.registry_eq, hagree.degrees_eq, hagree.protectedKinds_eq, hagree.calls_eq⟩

/-- After a successful request a run is the one that was started, with the counts and the kinds found to
be shared. -/
theorem request_run {registry : Registry K} {requested : List K} {mode : Mode} {run : Run K}
    (hstart : Run.start registry requested mode = .ok run) {m : Manager K E S} {s₀ : S}
    {t : Session K S} (hrequest : request m ⟨run, s₀⟩ = .ok () t) :
    t.run = { run with
      degrees := t.run.degrees
      protectedKinds := t.run.protectedKinds
      phase := .requested } := by
  obtain ⟨u, hsteps, -, -, rfl⟩ := request_ok hstart hrequest
  show { u.run with phase := .requested } = _
  rw [RequestSteps.run_eq hsteps]

/-- First requests that succeed leave drafts behind that differ in their mode only. -/
theorem draft_of_requests {registry : Registry K} {requested : List K} {mode mode' : Mode}
    {run run' : Run K} (hstart : Run.start registry requested mode = .ok run)
    (hstart' : Run.start registry requested mode' = .ok run') {m : Manager K E S}
    {m' : Manager K E' S'} {s₀ : S} {s₀' : S'} {t : Session K (Traced K S)}
    {t' : Session K (Traced K S')}
    (hrequest : request m.traced ⟨run, Traced.start s₀⟩ = .ok () t)
    (hrequest' : request m'.traced ⟨run', Traced.start s₀'⟩ = .ok () t') :
    Stage.draft ⟨t', []⟩ =
      ⟨⟨{ t.run.forgetful with mode := mode' }, t.manager.log.carriedOut⟩, []⟩ := by
  have hrun := request_run hstart hrequest
  have hrun' := request_run hstart' hrequest'
  have hagree : Agree t t' := by
    obtain ⟨-, rfl⟩ := start_ok hstart
    obtain ⟨-, rfl⟩ := start_ok hstart'
    exact request_agrees ⟨rfl, rfl, rfl, rfl⟩ rfl rfl rfl hrequest hrequest'
  have heq : t'.run = { t.run with mode := mode' } := by
    obtain ⟨-, rfl⟩ := start_ok hstart
    obtain ⟨-, rfl⟩ := start_ok hstart'
    rw [hrun, hrun', hagree.degrees_eq, hagree.protectedKinds_eq]
  unfold Stage.draft
  rw [heq, hagree.calls_eq]
  rfl

end Agree

/-- After a request the cost table remembers nothing yet. -/
theorem unbiased_of_request {registry : Registry K} {requested : List K} {mode : Mode} {run : Run K}
    (hstart : Run.start registry requested mode = .ok run) {m : Manager K E S} {s₀ : S}
    {t : Session K S} (hrequest : request m ⟨run, s₀⟩ = .ok () t) : t.run.Unbiased := by
  intro ks
  rw [request_run hstart hrequest]
  obtain ⟨-, rfl⟩ := start_ok hstart
  rfl

end Run

end TextIndex
