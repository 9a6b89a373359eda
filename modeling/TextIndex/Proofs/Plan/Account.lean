import Mathlib.Data.List.Perm.Subperm
import Mathlib.Order.Bounds.Basic
import TextIndex.Proofs.Plan.Calls
import TextIndex.Proofs.Plan.Upkeep

/-!
# The schedule reports what happened

A recorder writes down every call that reaches it, so that one can tell from its notes which kinds were
there after each call. The run keeps an account of its own: it lists what it builds, releases and
compresses, and counts the kinds that are there, without ever asking its manager. Both accounts are the
same (`schedule_reports_calls`), also when calls were refused and phases called again before.

* The run enters a kind into a list when the manager has carried out the call, and the recorder hears
  of a call exactly then (`Manager.Wraps`).
* A kind is there exactly if it has been built and still has a consumer (`Account.live_iff`), and the
  number of such kinds is what the run counts. A byproduct is released without being counted, but it has no
  consumer, so it was not there as a kind of the run.
* Only building adds to the kinds that are there. So the most that the run has seen right after
  building something is the most that there ever were.
-/

set_option autoImplicit false

namespace TextIndex

variable {K E S : Type} [DecidableEq K]

namespace Recorder

/-! ## Notes -/

/-- The kinds that calls of one sort were about, in order. -/
def kindsOf (a : Action) (events : List (Event K)) : List K :=
  (events.filter (·.action = a)).map Event.kind

omit [DecidableEq K] in
/-- The kinds of later calls come behind those of earlier ones. -/
theorem kindsOf_append (a : Action) (events later : List (Event K)) :
    kindsOf a (events ++ later) = kindsOf a events ++ kindsOf a later := by
  simp [kindsOf]

/-- The recorder after a call that it has carried out. -/
def heard (r : Recorder K) : Event K → Recorder K
  | .ensure k => r.note (.ensure k)
  | .construct k compressed => r.construct k compressed
  | .discard k intermediate => r.discard k intermediate
  | .protect k => r.protect k
  | .unprotect k => r.unprotect k
  | .compress k => r.compress k

/-- The recorder that has carried out the given calls, and no others. -/
def replay (failOn : Option K) (events : List (Event K)) : Recorder K :=
  events.foldl heard (.new failOn)

/-- Only the building of one given kind is refused. -/
theorem answer_construct (r : Recorder K) (k : K) (compressed : Bool) :
    manager.answer (.construct k compressed) r =
      if r.failOn = some k then .error ⟨k⟩ r else .ok () (r.construct k compressed) := by
  show (if r.failOn = some k then throw _ else _ : EStateM _ _ _) r = _
  split <;> rfl

/-- If a recorder does not refuse a call, it carries it out. -/
theorem eq_heard_of_answer {r r' : Recorder K} {e : Event K} (h : manager.answer e r = .ok () r') :
    r' = r.heard e := by
  cases e with
  | construct k compressed =>
    rw [answer_construct] at h
    split at h
    · cases h
    · cases h
      rfl
  | _ =>
    cases h
    rfl

/-- A recorder that carries a call out writes it down. -/
@[simp] theorem events_heard (r : Recorder K) (e : Event K) : (r.heard e).events = r.events ++ [e] := by
  cases e <;> rfl

/-- Building a kind puts it among those that are there, and releasing it takes it away. -/
theorem mem_liveKinds_heard {r : Recorder K} {e : Event K} {j : K} :
    j ∈ (r.heard e).liveKinds ↔
      (j ∈ r.liveKinds ∧ ∀ intermediate, e ≠ .discard j intermediate) ∨
        ∃ compressed, e = .construct j compressed := by
  cases e with
  | construct k compressed =>
    show j ∈ r.liveKinds.insert k ↔ _
    simp [eq_comm]
  | discard k intermediate =>
    show j ∈ r.liveKinds.erase k ↔ _
    simp [eq_comm]
  | _ =>
    show j ∈ r.liveKinds ↔ _
    simp

/-- Only building makes the kinds that are there more. -/
theorem size_liveKinds_heard_le {r : Recorder K} {e : Event K} (h : e.action ≠ .construct) :
    (r.heard e).liveKinds.size ≤ r.liveKinds.size := by
  refine (List.subperm_of_subset (r.heard e).liveKinds.nodup ?_).length_le
  intro j hj
  rcases mem_liveKinds_heard.1 hj with ⟨hj, -⟩ | ⟨compressed, rfl⟩
  · exact hj
  · exact absurd rfl h

end Recorder

open Recorder (kindsOf replay)

/-- A schedule that reports the calls which a recorder has heard of. -/
structure Schedule.Reports (schedule : Schedule K) (failOn : Option K) (recorder : Recorder K) :
    Prop where
  /-- The recorder has carried out its calls on nothing, one after the other. -/
  replayed : recorder = replay failOn recorder.events
  constructed_eq : schedule.constructed = kindsOf .construct recorder.events
  discarded_eq : schedule.discarded = kindsOf .discard recorder.events
  compressed_eq : schedule.compressed = kindsOf .compress recorder.events
  /-- The most kinds that there were after any of the calls. -/
  peak : IsGreatest {n | ∃ before, before <+: recorder.events ∧
    (replay failOn before).liveKinds.size = n} schedule.peakLive

/-- A manager that passes every call which it carries out on to a recorder. Of a call that it refuses
the recorder does not hear. -/
def Manager.Wraps (m : Manager K E S) (recorder : S → Recorder K) : Prop :=
  ∀ (event : Event K) (s : S), Ends (m.answer event) s
    (fun _ t => Recorder.manager.answer event (recorder s) = .ok () (recorder t))
    fun _ t => recorder t = recorder s

namespace Manager.Wraps

variable {m : Manager K E S} {recorder : S → Recorder K} {event : Event K} {s t : S}

/-- The recorder hears of a call that was carried out, … -/
theorem heard (hm : m.Wraps recorder) {u : Unit} (h : m.answer event s = .ok u t) :
    recorder t = (recorder s).heard event := Recorder.eq_heard_of_answer ((hm event s).of_ok h)

/-- … and not of one that was refused. -/
theorem refused (hm : m.Wraps recorder) {e : E} (h : m.answer event s = .error e t) :
    recorder t = recorder s := (hm event s).of_error h

end Manager.Wraps

namespace Schedule.Reports

variable {schedule schedule' : Schedule K} {failOn : Option K} {recorder : Recorder K} {e : Event K}

/-- An empty schedule reports what a new recorder has heard. -/
theorem start (failOn : Option K) : (empty : Schedule K).Reports failOn (.new failOn) where
  replayed := rfl
  constructed_eq := rfl
  discarded_eq := rfl
  compressed_eq := rfl
  peak := by
    refine ⟨⟨[], List.prefix_rfl, rfl⟩, ?_⟩
    rintro n ⟨before, hbefore, rfl⟩
    rw [List.prefix_nil.1 hbefore]
    exact Nat.le_refl _

/-- One more call, entered into the list of its sort. -/
theorem snoc (h : schedule.Reports failOn recorder)
    (hconstructed : schedule'.constructed = schedule.constructed ++ kindsOf .construct [e])
    (hdiscarded : schedule'.discarded = schedule.discarded ++ kindsOf .discard [e])
    (hcompressed : schedule'.compressed = schedule.compressed ++ kindsOf .compress [e])
    (hpeak : schedule'.peakLive = max schedule.peakLive (recorder.heard e).liveKinds.size) :
    schedule'.Reports failOn (recorder.heard e) := by
  have hreplayed : recorder.heard e = replay failOn (recorder.heard e).events := by
    rw [Recorder.events_heard, replay, List.foldl_append]
    exact congrArg (Recorder.heard · e) h.replayed
  obtain ⟨⟨most, hmost, hsize⟩, hgreatest⟩ := h.peak
  refine ⟨hreplayed, ?_, ?_, ?_, ?_, ?_⟩
  · rw [hconstructed, h.constructed_eq, Recorder.events_heard, Recorder.kindsOf_append]
  · rw [hdiscarded, h.discarded_eq, Recorder.events_heard, Recorder.kindsOf_append]
  · rw [hcompressed, h.compressed_eq, Recorder.events_heard, Recorder.kindsOf_append]
  · rw [hpeak]
    rcases Nat.le_total schedule.peakLive (recorder.heard e).liveKinds.size with hle | hle
    · exact ⟨_, List.prefix_rfl, by rw [← hreplayed, max_eq_right hle]⟩
    · refine ⟨most, ?_, by rw [hsize, max_eq_left hle]⟩
      rw [Recorder.events_heard]
      exact hmost.trans (List.prefix_append ..)
  · rintro n ⟨before, hbefore, rfl⟩
    rw [hpeak]
    rw [Recorder.events_heard, List.prefix_concat_iff] at hbefore
    rcases hbefore with rfl | hbefore
    · rw [← Recorder.events_heard, ← hreplayed]
      exact Nat.le_max_right ..
    · exact Nat.le_trans (hgreatest ⟨before, hbefore, rfl⟩) (Nat.le_max_left ..)

/-- A call that builds nothing does not change the most that there were. -/
theorem max_peak (h : schedule.Reports failOn recorder) (he : e.action ≠ .construct) :
    schedule.peakLive = max schedule.peakLive (recorder.heard e).liveKinds.size := by
  have hnow : recorder.liveKinds.size ≤ schedule.peakLive :=
    h.peak.2 ⟨recorder.events, List.prefix_rfl, by rw [← h.replayed]⟩
  exact (max_eq_left (Nat.le_trans (Recorder.size_liveKinds_heard_le he) hnow)).symm

end Schedule.Reports

namespace Run

/-! ## The account of a run -/

/-- A set of the built kinds that still have a consumer has as many members as the run holds. -/
theorem size_eq_heldCount {live : KindSet K} {r : Run K}
    (h : ∀ k, k ∈ live ↔ k ∈ r.constructedKinds ∧ 0 < r.degrees.degree k) :
    live.size = r.heldCount := by
  have hperm : live.toList.Perm
      (r.constructedKinds.toList.filter fun k => 0 < r.degrees.degree k) := by
    rw [List.perm_ext_iff_of_nodup live.nodup (r.constructedKinds.nodup.filter _)]
    intro k
    rw [List.mem_filter, decide_eq_true_eq]
    exact h k
  unfold heldCount
  rw [List.countP_eq_length_filter]
  exact hperm.length_eq

/-- The account of a run agrees with that of the recorder behind its manager. -/
structure Account (failOn : Option K) (recorder : Recorder K) (r : Run K) : Prop where
  reports : r.schedule.Reports failOn recorder
  /-- The kinds that are there are the built ones that still have a consumer. -/
  live_iff : ∀ k, k ∈ recorder.liveKinds ↔ k ∈ r.constructedKinds ∧ 0 < r.degrees.degree k

namespace Account

variable {failOn : Option K} {recorder : Recorder K} {r r' : Run K}

/-- A change of the run of which the recorder does not hear. -/
theorem frame (h : Account failOn recorder r) (hschedule : r'.schedule = r.schedule)
    (hbuilt : r'.constructedKinds = r.constructedKinds)
    (hdegree : ∀ k ∈ r.constructedKinds, 0 < r'.degrees.degree k ↔ 0 < r.degrees.degree k) :
    Account failOn recorder r' where
  reports := hschedule ▸ h.reports
  live_iff k := by
    rw [hbuilt, h.live_iff, and_congr_right_iff]
    exact fun hk => (hdegree k hk).symm

/-- A call that neither builds nor releases. -/
theorem note (h : Account failOn recorder r) {e : Event K}
    (hconstruct : ∀ k compressed, e ≠ .construct k compressed)
    (hdiscard : ∀ k intermediate, e ≠ .discard k intermediate)
    (hschedule : r'.schedule =
      { r.schedule with compressed := r.schedule.compressed ++ kindsOf .compress [e] })
    (hbuilt : r'.constructedKinds = r.constructedKinds)
    (hdegree : ∀ k ∈ r.constructedKinds, 0 < r'.degrees.degree k ↔ 0 < r.degrees.degree k) :
    Account failOn (recorder.heard e) r' := by
  have hsort : e.action ≠ .construct ∧ e.action ≠ .discard := by
    cases e <;> simp_all [Event.action]
  have hnone : kindsOf .construct [e] = [] ∧ kindsOf .discard [e] = [] := by
    simp [kindsOf, hsort]
  constructor
  · refine h.reports.snoc ?_ ?_ ?_ ?_
    · rw [hschedule, hnone.1, List.append_nil]
    · rw [hschedule, hnone.2, List.append_nil]
    · rw [hschedule]
    · rw [hschedule]
      exact h.reports.max_peak hsort.1
  · intro k
    have hlive : k ∈ (recorder.heard e).liveKinds ↔ k ∈ recorder.liveKinds := by
      rw [Recorder.mem_liveKinds_heard]
      simp [hconstruct, hdiscard]
    rw [hlive, hbuilt, h.live_iff, and_congr_right_iff]
    exact fun hk => (hdegree k hk).symm

/-- A kind is released that has no consumer afterwards. -/
theorem discard (h : Account failOn recorder r) {k : K} (intermediate : Bool)
    (hschedule : r'.schedule = r.schedule.addDiscarded k)
    (hbuilt : r'.constructedKinds = r.constructedKinds)
    (hdegree : ∀ j, 0 < r'.degrees.degree j ↔ 0 < r.degrees.degree j ∧ j ≠ k) :
    Account failOn (recorder.heard (.discard k intermediate)) r' := by
  constructor
  · refine h.reports.snoc ?_ ?_ ?_ ?_
    · rw [hschedule]
      exact (List.append_nil _).symm
    · rw [hschedule]
      rfl
    · rw [hschedule]
      exact (List.append_nil _).symm
    · rw [hschedule]
      exact h.reports.max_peak (by simp [Event.action])
  · intro j
    rw [Recorder.mem_liveKinds_heard, h.live_iff, hbuilt, hdegree]
    simp [eq_comm, and_assoc]

/-- A kind is built that has consumers. -/
theorem construct {slack : K → Nat} {s : Session K S} {k : K} {top : Bool}
    (h : Account failOn recorder s.run) (hbalance : Balance slack ⟨s, []⟩)
    (hready : s.run.Ready k top) (compressed : Bool) :
    Account failOn (recorder.heard (.construct k compressed)) (s.run.built k) := by
  have hpos := hbalance.wanted_pos hready.wanted
  have hlive : ∀ j, j ∈ (recorder.heard (.construct k compressed)).liveKinds ↔
      j ∈ (s.run.built k).constructedKinds ∧ 0 < (s.run.built k).degrees.degree j := by
    intro j
    rw [Recorder.mem_liveKinds_heard, h.live_iff, constructedKinds_built, degrees_built,
      KindSet.mem_insert]
    by_cases hj : j = k
    · subst hj
      simp [hpos]
    · simp [hj, Ne.symm hj]
  have hsize : (recorder.heard (.construct k compressed)).liveKinds.size = s.run.heldCount + 1 := by
    rw [size_eq_heldCount hlive, heldCount_built hready.unbuilt hpos]
  have hcount : (s.run.live.now + 1).toNat = s.run.heldCount + 1 := by
    have hnow : s.run.live.now = s.run.heldCount := hbalance.live_eq
    omega
  refine ⟨h.reports.snoc rfl (List.append_nil _).symm (List.append_nil _).symm ?_, hlive⟩
  show max s.run.schedule.peakLive (s.run.live.now + 1).toNat = _
  rw [hcount, hsize]

end Account

/-! ## Every step -/

section Wraps

variable {m : Manager K E S} {recorder : S → Recorder K} {failOn : Option K}

/-- A step of a request keeps the account, for it builds nothing. -/
theorem account_requestStep (hm : m.Wraps recorder) {s t : Session K S} (hstep : RequestStep m s t)
    (hempty : s.run.constructedKinds = .empty) (h : Account failOn (recorder s.manager) s.run) :
    Account failOn (recorder t.manager) t.run := by
  have hno : ∀ {P : K → Prop}, ∀ k ∈ s.run.constructedKinds, P k := by
    intro P k hk
    rw [hempty] at hk
    exact absurd hk (KindSet.not_mem_empty k)
  cases hstep with
  | @ensured k u hok =>
    have hheard : recorder u = (recorder s.manager).heard (.ensure k) := hm.heard hok
    show Account failOn (recorder u) s.run
    rw [hheard]
    exact h.note (by simp) (by simp) (by simp [kindsOf, Event.action]) rfl hno
  | @refused k e u herror =>
    have herror : m.answer (.ensure k) s.manager = .error e u := herror
    show Account failOn (recorder u) s.run
    rw [hm.refused herror]
    exact h
  | counted k =>
    unfold counted
    split
    · have hheard : recorder (m.protect k s.manager) = (recorder s.manager).heard (.protect k) :=
        hm.heard rfl
      show Account failOn (recorder (m.protect k s.manager)) _
      rw [hheard]
      exact h.note (by simp) (by simp) (by simp [kindsOf, Event.action]) rfl hno
    · exact h.frame rfl rfl hno

/-- Lowering the degree of a kind to a positive one changes nothing about who has consumers. -/
theorem degree_pos_withDegree {r : Run K} {k : K} {n : Nat} (hk : 0 < r.degrees.degree k)
    (hn : 0 < n) (j : K) : 0 < (r.withDegree k n).degrees.degree j ↔ 0 < r.degrees.degree j := by
  rw [degree_withDegree]
  split
  · next heq => simp [heq, hk, hn]
  · rfl

/-- A step of an evaluation enters into the account what the recorder hears of. -/
theorem account_step (hm : m.Wraps recorder) {slack : K → Nat} {c c' : Stage K S}
    (hbalance : Balance slack c) (hstep : Step m c c')
    (h : Account failOn (recorder c.session.manager) c.session.run) :
    Account failOn (recorder c'.session.manager) c'.session.run := by
  cases hstep with
  | consult _ _ => exact h.frame rfl rfl fun _ _ => Iff.rfl
  | keepByproduct _ => exact h
  | settleSkip _ => exact h
  | @construct s k top t hready hok _ =>
    have hheard : recorder t =
        (recorder s.manager).heard (.construct k (s.run.mode = .compressed)) := hm.heard hok
    show Account failOn (recorder t) (s.run.built k)
    rw [hheard]
    exact h.construct hbalance hready _
  | @dropByproduct s k tasks hdegree =>
    have hheard : recorder (m.discard k true s.manager) =
        (recorder s.manager).heard (.discard k true) := hm.heard rfl
    show Account failOn (recorder (m.discard k true s.manager)) _
    rw [hheard]
    refine h.discard true rfl rfl fun j => ?_
    show 0 < s.run.degrees.degree j ↔ _
    exact (and_iff_left_of_imp fun hpos (heq : j = k) =>
      absurd hdegree (Nat.ne_of_gt (heq ▸ hpos))).symm
  | @releaseLast s k tasks hdegree =>
    have hheard : recorder (m.discard k (k ∉ s.run.requestedKinds) s.manager) =
        (recorder s.manager).heard (.discard k (k ∉ s.run.requestedKinds)) := hm.heard rfl
    show Account failOn (recorder (m.discard k _ s.manager)) _
    rw [hheard]
    refine h.discard _ rfl rfl fun j => ?_
    show 0 < (s.run.withDegree k 0).degrees.degree j ↔ _
    rw [degree_withDegree]
    by_cases hj : j = k <;> simp [hj]
  | @releaseToLast s k tasks hdegree _ =>
    have hheard : recorder (m.unprotect k s.manager) = (recorder s.manager).heard (.unprotect k) :=
      hm.heard rfl
    show Account failOn (recorder (m.unprotect k s.manager)) _
    rw [hheard]
    exact h.note (by simp) (by simp) (by simp [kindsOf, Event.action, withDegree]) rfl
      fun j _ => degree_pos_withDegree (by omega) Nat.one_pos j
  | @releaseShared s k n tasks hdegree _ =>
    exact h.frame rfl rfl fun j _ => degree_pos_withDegree (by omega) (Nat.succ_pos n) j
  | @settleDone s k t tasks _ hok =>
    have hheard : recorder t = (recorder s.manager).heard (.compress k) := hm.heard hok
    show Account failOn (recorder t) _
    rw [hheard]
    exact h.note (by simp) (by simp) rfl rfl fun _ _ => Iff.rfl

/-- A refused call is entered nowhere, and the recorder does not hear of it. -/
theorem account_stop (hm : m.Wraps recorder) {c : Stage K S} {e : ScheduleError K E}
    {t : Session K S} (hstop : Stop m c e t)
    (h : Account failOn (recorder c.session.manager) c.session.run) :
    Account failOn (recorder t.manager) t.run := by
  cases hstop with
  | @construct s k top e u _ herror =>
    have herror : m.answer (.construct k (s.run.mode = .compressed)) s.manager = .error e u := herror
    show Account failOn (recorder u) s.run
    rw [hm.refused herror]
    exact h
  | @settle s k e u tasks _ herror =>
    have herror : m.answer (.compress k) s.manager = .error e u := herror
    show Account failOn (recorder u) _
    rw [hm.refused herror]
    exact h.frame rfl rfl fun _ _ => Iff.rfl
  | release _ => exact h

/-- Until its schedule has been handed out, the account of a run agrees with that of the recorder. -/
theorem upholds_account (hm : m.Wraps recorder) (failOn : Option K) :
    Upholds m fun s => s.run.phase ≠ .evaluated → Account failOn (recorder s.manager) s.run where
  requestStep {s t} hstep hempty h hphase := by
    have hrun := RequestSteps.run_eq (.single hstep)
    exact account_requestStep hm hstep hempty (h (by rwa [hrun] at hphase))
  requested {s} hphase h _ := (h (by simp [hphase])).frame rfl rfl fun _ _ => Iff.rfl
  step hbalance hstep h hphase :=
    account_step hm hbalance hstep (h (by rwa [← Steps.phase_eq (.single hstep)]))
  stop _ hstop h hphase := account_stop hm hstop (h (by rwa [← hstop.keeps.2.2]))
  evaluated _ hphase := absurd rfl hphase

end Wraps

/-- Whatever calls were refused and however often the phases were called before: if an evaluation
succeeds, its schedule reports all calls that the recorder behind the manager has heard of. -/
theorem schedule_reports_calls {registry : Registry K} {requested : List K} {mode : Mode}
    {run : Run K} (hstart : Run.start registry requested mode = .ok run) {m : Manager K E S}
    {recorder : S → Recorder K} (hm : m.Wraps recorder) {s₀ : S} {failOn : Option K}
    (hfresh : recorder s₀ = .new failOn) (calls : List PhaseCall) {schedule : Schedule K}
    {t : Session K S} (hevaluate : evaluate m (serveAll m calls ⟨run, s₀⟩).2 = .ok schedule t) :
    schedule.Reports failOn (recorder t.manager) := by
  obtain ⟨L⟩ := Registry.nonempty_layers_of_request (start_ok hstart).1
  have hnothing : Account failOn (recorder s₀) run := by
    obtain ⟨-, rfl⟩ := start_ok hstart
    rw [hfresh]
    exact ⟨.start failOn, fun k => by simp [Recorder.new]⟩
  have hP := upholds_account hm failOn
  obtain ⟨hkept, -⟩ := kept_serveAll hstart hP (fun _ => hnothing) calls
  obtain ⟨hphase, u, hsteps, hu, -, rfl, rfl⟩ := hkept.evaluate_ok L hP hevaluate
  have hphase' : u.run.phase = .requested := hsteps.phase_eq.trans hphase
  exact (hu (by simp [hphase'])).reports

end Run

/-! ## A recorder that is out of reach at times -/

namespace Recorder

/-- A recorder that refuses a call stays as it is. -/
theorem eq_of_refused {r r' : Recorder K} {e : Event K} {cause : InjectedFailure K}
    (h : manager.answer e r = .error cause r') : r' = r := by
  cases e with
  | construct k compressed =>
    rw [answer_construct] at h
    split at h
    · cases h
      rfl
    · cases h
  | _ => cases h

/-- A call that is let through ends as it does at the recorder; a refused one leaves the recorder
alone. -/
theorem ends_gate (k : K) (e : Event K) (s : List Bool × Recorder K) :
    Ends (gate k (manager.answer e)) s
      (fun _ t => manager.answer e s.2 = .ok () t.2) fun _ t => t.2 = s.2 := by
  obtain ⟨answers, r⟩ := s
  unfold Ends gate
  by_cases hrefused : answers.head? = some false
  · simp only [hrefused, if_true]
  · simp only [hrefused, if_false]
    cases h : manager.answer e r with
    | ok u r' => rfl
    | error cause r' => exact eq_of_refused h

/-- Whatever the answers are, the recorder hears of the calls that are carried out. -/
theorem wraps_gated : (gated : Manager K _ _).Wraps Prod.snd := by
  intro e s
  cases e with
  | ensure k => exact ends_gate k (.ensure k) s
  | construct k compressed => exact ends_gate k (.construct k compressed) s
  | compress k => exact ends_gate k (.compress k) s
  | _ => exact rfl

end Recorder

namespace Run

/-- The client asks for two kinds, one of which is built from the other by way of a third kind that
yields a byproduct. Making the third kind ready is refused at first, and so is the first building and the
first compression. -/
theorem schedule_reports_calls_after_refusals :
    let registry : Registry Nat :=
      ⟨⟨[(0, .leaf), (1, (Provider.leaf.requires [0]).yields [2]), (2, .leaf),
        (3, Provider.leaf.requires [1])], by decide⟩⟩
    ∃ run, Run.start registry [3, 0] .delayed = .ok run ∧
      let answers := [true, false, true, true, true, true, false, true, true, false]
      let before := serveAll Recorder.gated [.request, .request, .evaluate, .evaluate]
        ⟨run, answers, .new none⟩
      before.1.map Except.isOk = [false, true, false, false] ∧
        ∃ schedule t, evaluate Recorder.gated before.2 = .ok schedule t ∧
          schedule.Reports none t.manager.2 :=
  have hstart : Run.start _ [3, 0] .delayed = .ok _ := rfl
  have ⟨schedule, t, hevaluate⟩ := exists_of_isOk (by decide +kernel)
  ⟨_, hstart, by decide +kernel, schedule, t, hevaluate,
    schedule_reports_calls hstart Recorder.wraps_gated rfl _ hevaluate⟩

end Run

end TextIndex
