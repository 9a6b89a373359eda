import TextIndex.Proofs.Plan.Account
import TextIndex.Proofs.Plan.Modes
import TextIndex.Proofs.Plan.SideBySide

/-!
# Runs on record

A run that succeeds is on record: the recorder, which refuses nothing, makes the same schedule of the same
request, and its manager has carried out the calls that the recorder notes, one after the other
(`constructAll_recorded`). So what is to be shown of the manager of such a run can be shown call by call,
without a look at the run.

* What the schedule reports, it reports of the record (`Recorder.reports_of_run`).
* The record in plain mode is the one in any other mode without what that says about compression
  (`Recorder.plain_run`).
-/

set_option autoImplicit false

namespace TextIndex

variable {K E S : Type} {m : Manager K E S} {s t : S} {calls : List (Event K)}

/-! ## Calls in a row -/

/-- The manager carries out all of the calls, one after the other. -/
def Manager.CarriesOut (m : Manager K E S) (s : S) (calls : List (Event K)) : Prop :=
  ∀ before call, before ++ [call] <+: calls →
    m.answer call (m.afterAll s before) = .ok () (m.afterAll s (before ++ [call]))

namespace Manager

/-- A further call goes on from where the others ended. -/
@[simp] theorem afterAll_snoc (m : Manager K E S) (s : S) (calls : List (Event K)) (call : Event K) :
    m.afterAll s (calls ++ [call]) = m.after (m.afterAll s calls) call := by
  unfold afterAll
  rw [List.foldl_append]
  rfl

/-- No calls can always be carried out. -/
theorem carriesOut_nil (m : Manager K E S) (s : S) : m.CarriesOut s [] := by
  intro before call hprefix
  exact absurd (List.prefix_nil.1 hprefix) (by simp)

/-- One more call. -/
theorem CarriesOut.snoc (h : m.CarriesOut s calls) {call : Event K}
    (hok : m.answer call (m.afterAll s calls) = .ok () t) : m.CarriesOut s (calls ++ [call]) := by
  intro before e hprefix
  rcases List.prefix_concat_iff.1 hprefix with heq | hprefix
  · obtain ⟨rfl, he⟩ := List.append_inj' heq rfl
    cases he
    rwa [afterAll_snoc, after_of_ok hok]
  · exact h before e hprefix

/-- What holds at the start and is kept by each call holds all the way. -/
theorem CarriesOut.induction {P : List (Event K) → S → Prop} (h : m.CarriesOut s calls) (hstart : P [] s)
    (hcall : ∀ before call, before ++ [call] <+: calls →
      m.answer call (m.afterAll s before) = .ok () (m.afterAll s (before ++ [call])) →
      P before (m.afterAll s before) → P (before ++ [call]) (m.afterAll s (before ++ [call])))
    {before : List (Event K)} (hbefore : before <+: calls) : P before (m.afterAll s before) := by
  induction before using List.reverseRecOn with
  | nil => exact hstart
  | append_singleton before call ih =>
    exact hcall before call hbefore (h before call hbefore)
      (ih ((List.prefix_append ..).trans hbefore))

end Manager

/-! ## The record of a run -/

namespace Recorder

variable [DecidableEq K]

/-- A recorder that is not made to fail carries out every call. -/
theorem answer_of_willing {r : Recorder K} (h : r.failOn = none) (e : Event K) :
    manager.answer e r = .ok () (r.heard e) ∧ (r.heard e).failOn = none := by
  cases e with
  | construct k compressed =>
    rw [answer_construct, h]
    exact ⟨if_neg (by simp), h⟩
  | _ => exact ⟨rfl, h⟩

end Recorder

/-- A recorder that refuses nothing keeps the record of the manager that starts in `s`. -/
def besideRecord [DecidableEq K] (m : Manager K E S) (s : S) :
    Beside m (Recorder.manager : Manager K (InjectedFailure K) (Recorder K)) where
  together t r := r.failOn = none ∧ m.CarriesOut s r.events ∧ t = m.afterAll s r.events
  firstBehind _ _ := True
  secondBehind _ _ := False
  answer := by
    rintro event t r ⟨hwilling, hcalls, rfl⟩
    obtain ⟨hok, hwilling'⟩ := Recorder.answer_of_willing hwilling event
    rw [hok]
    cases hanswer : m.answer event (m.afterAll s r.events) with
    | ok _ t =>
      refine ⟨hwilling', ?_, ?_⟩
      · rw [Recorder.events_heard]
        exact hcalls.snoc hanswer
      · rw [Recorder.events_heard, Manager.afterAll_snoc, Manager.after_of_ok hanswer]
    | error _ t => exact trivial
  firstBehind_after _ _ _ h := h
  secondBehind_after _ _ _ h := h

section Runs

variable [DecidableEq K] {registry : Registry K} {requested : List K} {mode : Mode}
  {schedule : Schedule K}

/-- A run that succeeds is on record. -/
theorem constructAll_recorded (h : constructAll registry m requested mode s = .ok schedule t) :
    ∃ r, constructAll registry Recorder.manager requested mode (.new none) = .ok schedule r ∧
      r.events = (callsOf registry m requested mode s).map (·.event) ∧
      m.CarriesOut s r.events ∧ t = m.afterAll s r.events := by
  obtain ⟨r, hr, hevents⟩ := recorder_predicts registry requested mode m h
  refine ⟨r, hr, hevents, ?_⟩
  rcases constructAll_compares (besideRecord m s) registry requested mode
    (show (besideRecord m s).together s (.new none) from ⟨rfl, m.carriesOut_nil s, rfl⟩)
    with ⟨-, hrecord⟩ | ⟨⟨e, he⟩, -⟩ | ⟨-, hbehind⟩
  · rw [h, hr] at hrecord
    exact hrecord.2
  · rw [h] at he
    cases he
  · exact hbehind.elim

omit [DecidableEq K] in
/-- A run whose outcome is a value has succeeded. -/
theorem exists_of_outcome {σ α : Type} {x : EStateM.Result (ScheduleError K E) σ α} {a : α}
    (h : outcome x = .ok a) : ∃ t, x = .ok a t := by
  cases x with
  | ok b t =>
    cases h
    exact ⟨t, rfl⟩
  | error e t => cases h

/-- A run of its own is a request and an evaluation. -/
theorem constructAll_eq_ok : constructAll registry m requested mode s = .ok schedule t ↔
    ∃ run u v, Run.start registry requested mode = .ok run ∧ Run.request m ⟨run, s⟩ = .ok () u ∧
      Run.evaluate m u = .ok schedule v ∧ v.manager = t := by
  unfold constructAll
  cases Run.start registry requested mode with
  | error e => simp
  | ok run =>
    dsimp only
    constructor
    · intro h
      split at h
      · next hphases =>
        cases h
        obtain ⟨_, u, hrequest, hevaluate⟩ := bind_apply_eq_ok.1 hphases
        exact ⟨run, u, _, rfl, hrequest, hevaluate, rfl⟩
      · cases h
    · rintro ⟨run', u, v, hrun, hrequest, hevaluate, rfl⟩
      injection hrun with hrun
      subst hrun
      rw [bind_apply_of_ok hrequest, hevaluate]

namespace Recorder

variable {r : Recorder K}

/-- A recorder passes every call on to itself. -/
theorem wraps_self : (manager : Manager K _ _).Wraps id := by
  intro e r
  cases h : manager.answer e r with
  | ok u r' => exact ends_of_ok h h
  | error cause r' => exact ends_of_error h (eq_of_refused h)

/-- The schedule of a run reports what the recorder has noted. -/
theorem reports_of_run {failOn : Option K}
    (h : constructAll registry manager requested mode (.new failOn) = .ok schedule r) :
    schedule.Reports failOn r := by
  obtain ⟨run, u, v, hstart, hrequest, hevaluate, rfl⟩ := constructAll_eq_ok.1 h
  obtain ⟨L⟩ := Registry.nonempty_layers_of_request (Run.start_ok hstart).1
  have hP := Run.upholds_account wraps_self failOn
  have hnothing : Run.Account failOn (.new failOn) run := by
    obtain ⟨-, rfl⟩ := Run.start_ok hstart
    exact ⟨.start failOn, fun k => by simp [new]⟩
  have hkept := ((Run.kept_start hstart fun _ => hnothing).request L hP).of_ok hrequest
  obtain ⟨hphase, w, hsteps, hw, -, rfl, rfl⟩ := hkept.evaluate_ok L hP hevaluate
  have hphase' : w.run.phase = .requested := hsteps.phase_eq.trans hphase
  exact (hw (by simp [hphase'])).reports

end Recorder

/-! ## The record in plain mode -/

namespace Run

omit [DecidableEq K] in
/-- While kinds are counted, nothing is called that is about compression. -/
theorem uncompressed_eq_some {e : Event K} (h : e.action = .ensure ∨ e.action = .protect) :
    e.uncompressed = some e := by
  cases e <;> simp [Event.action] at h ⊢ <;> rfl

/-- After a request in plain mode, nothing of the draft is about compression. -/
theorem uncompressed_of_request {run : Run K} (hstart : Run.start registry requested .plain = .ok run)
    {u : Session K (Traced K S)} (hrequest : request m.traced ⟨run, Traced.start s⟩ = .ok () u) :
    (Stage.draft ⟨u, []⟩).uncompressed = Stage.draft ⟨u, []⟩ := by
  have hcalls : u.manager.log.carriedOut.filterMap Event.uncompressed = u.manager.log.carriedOut := by
    obtain ⟨v, hsteps, -, -, rfl⟩ := request_ok hstart hrequest
    rw [List.filterMap_congr (g := some), List.filterMap_some]
    intro event hevent
    obtain ⟨e, he, rfl⟩ := List.mem_map.1 hevent
    apply uncompressed_eq_some
    exact (hsteps.log_mem (List.mem_filter.1 he).1).resolve_left List.not_mem_nil
  unfold Stage.draft Draft.uncompressed
  rw [hcalls, request_run hstart hrequest]
  obtain ⟨-, rfl⟩ := start_ok hstart
  rfl

/-- The evaluation in plain mode makes the calls of one in any mode, without what these say about
compression. -/
theorem Arrives.plain_calls {S' : Type} {start start' : Draft K} {schedule' : Schedule K}
    {u : Session K (Traced K S)} {u' : Session K (Traced K S')} (h : Arrives start schedule u)
    (h' : Arrives start' schedule' u') (hstart : start.uncompressed = start') :
    u'.manager.log.carriedOut = u.manager.log.carriedOut.filterMap Event.uncompressed := by
  obtain ⟨v, hcourse, hend, rfl, rfl⟩ := h
  obtain ⟨v', hcourse', hend', rfl, rfl⟩ := h'
  have hplain := hcourse.uncompressed
  rw [hstart] at hplain
  exact congrArg (fun d : Draft K => d.session.manager)
    (hcourse'.unique hplain hend' (Draft.advance_uncompressed_eq_none hend))

end Run

namespace Recorder

variable {r : Recorder K}

/-- The record of a run. -/
theorem events_of_phases {run : Run K} (hstart : Run.start registry requested mode = .ok run)
    (h : constructAll registry manager requested mode (.new none) = .ok schedule r)
    {u v : Session K (Traced K (Recorder K))} {schedule' : Schedule K}
    (hrequest : Run.request manager.traced ⟨run, Traced.start (.new none)⟩ = .ok () u)
    (hevaluate : Run.evaluate manager.traced u = .ok schedule' v) :
    r.events = v.manager.log.map (·.event) := by
  obtain ⟨r', hr', hevents, -⟩ := constructAll_recorded h
  rw [h] at hr'
  cases hr'
  have htraced : constructAll registry manager.traced requested mode (Traced.start (.new none)) =
      .ok schedule' v.manager :=
    constructAll_eq_ok.2 ⟨run, u, v, hstart, hrequest, hevaluate, rfl⟩
  rw [hevents]
  unfold callsOf
  rw [htraced]
  rfl

/-- What is on record in any mode is on record in plain mode, without what that says about compression. -/
theorem plain_run (h : constructAll registry manager requested mode (.new none) = .ok schedule r) :
    ∃ schedule' r', constructAll registry manager requested .plain (.new none) = .ok schedule' r' ∧
      r'.events = r.events.filterMap Event.uncompressed := by
  obtain ⟨run, -, -, hstart, -⟩ := constructAll_eq_ok.1 h
  obtain ⟨run', hstart'⟩ : ∃ run', Run.start registry requested .plain = .ok run' := by
    unfold Run.start
    rw [(Run.start_ok hstart).1]
    exact ⟨_, rfl⟩
  have hnew : (new none : Recorder K).failOn = none := rfl
  obtain ⟨u, _, v, hrequest, hevaluate, harrives, hlog⟩ := Run.run_arrives hstart willing hnew
  obtain ⟨u', schedule', v', hrequest', hevaluate', harrives', hlog'⟩ :=
    Run.run_arrives hstart' willing hnew
  have hbegin : (Run.Stage.draft ⟨u, []⟩).uncompressed = Run.Stage.draft ⟨u', []⟩ := by
    rw [← Run.uncompressed_of_request hstart' hrequest',
      Run.draft_of_requests hstart hstart' hrequest hrequest']
    rfl
  have hcalls := harrives.plain_calls harrives' hbegin
  obtain ⟨r', hr'⟩ : ∃ r', constructAll registry manager requested .plain (.new none) =
      .ok schedule' r' := by
    apply exists_of_outcome
    rw [(constructAll_traced ..).1,
      constructAll_eq_ok.2 ⟨run', u', v', hstart', hrequest', hevaluate', rfl⟩]
    rfl
  refine ⟨schedule', r', hr', ?_⟩
  rw [events_of_phases hstart h hrequest hevaluate, events_of_phases hstart' hr' hrequest' hevaluate',
    ← hlog, ← hlog', hcalls]

end Recorder

end Runs

end TextIndex
