import TextIndex.CommandLine.Report
import TextIndex.Proofs.Index.Construct
import TextIndex.Proofs.Plan.Resume
import TextIndex.Proofs.Plan.SideBySide

/-!
# A dry run predicts the real run

The recorder takes notes and builds nothing. What it is asked is nevertheless what a store is asked that
builds everything, because a run of the planner learns nothing from its manager but what has been carried
out. Two things are left to be seen here: an index that is new holds nothing, so that nothing is requested
beside the given kinds; and the recorder refuses nothing, so that it has no part in how a run that
succeeds goes on.
-/

set_option autoImplicit false

namespace TextIndex.Index

/-- Nothing is held in a new index. -/
theorem heldInRun_new (text : SentinelText) (width : Width) (mode : Mode) (kinds : List Kind) :
    heldInRun ⟨.new text width mode⟩ kinds = [] := by
  apply List.eq_nil_iff_forall_not_mem.2
  intro k hk
  obtain ⟨-, hlive, -⟩ := mem_heldInRun.1 hk
  have hsome := (sound_new text [] width mode).setup.isLive_eq k
  rw [hlive, show Store.get? _ k = none from get?_new text width mode k] at hsome
  cases hsome

/-- A construct on a new index is a run for the given kinds. -/
theorem construct_new {bytes : Array UInt8} {config : Config} {ix ix' : Index} {kinds : List Kind}
    {schedule : Schedule Kind} (hnew : Index.new bytes config = .ok ix)
    (h : construct kinds ix = .ok schedule ix') :
    constructAll Kind.registry Store.manager kinds config.mode ix.store.beginRun =
      .ok schedule ix'.store := by
  obtain ⟨width, text, -, -, rfl⟩ := new_ok hnew
  unfold construct at h
  rw [heldInRun_new, List.append_nil] at h
  dsimp only at h
  split at h
  · next hrun =>
    cases h
    exact hrun
  · cases h

/-- Managers that carry out and refuse calls at the same positions receive the same calls, and the runs
return the same schedule or fail on the same kind, whatever is requested of whatever registry. So the
schedule of a construct on a new index is the one that is planned in advance. -/
theorem dry_run_predicts_real_run :
    (∀ {K E S E' S' : Type} [DecidableEq K] (registry : Registry K) (requested : List K) (mode : Mode)
      (m : Manager K E S) (m' : Manager K E' S') (s : S) (s' : S'),
      Log.SameAnswers (callsOf registry m requested mode s) (callsOf registry m' requested mode s') →
        callsOf registry m requested mode s = callsOf registry m' requested mode s' ∧
        outcome (constructAll registry m requested mode s) =
          outcome (constructAll registry m' requested mode s')) ∧
    ∀ (bytes : Array UInt8) (config : Config) (kinds : List Kind) (schedule : Schedule Kind)
      (ix ix' : Index), Index.new bytes config = .ok ix → construct kinds ix = .ok schedule ix' →
        ∃ r, constructAll Kind.registry Recorder.manager kinds config.mode (.new none) =
            .ok schedule r ∧
          r.events = (callsOf Kind.registry Store.manager kinds config.mode
            ix.store.beginRun).map (·.event) ∧
          CommandLine.planReport kinds config.mode = .finished
            (r.events.map Event.render ++ [s!"peak live structures: {schedule.peakLive}"]) := by
  constructor
  · intro K E S E' S' _ registry requested mode m m' s s' hsame
    exact constructAll_sameAnswers registry requested mode m m' hsame
  · intro bytes config kinds schedule ix ix' hnew hok
    obtain ⟨r, hr, hevents⟩ := recorder_predicts _ _ _ _ (construct_new hnew hok)
    refine ⟨r, hr, hevents, ?_⟩
    unfold CommandLine.planReport
    rw [hr]

/-- A recorder that fails to build the kind 2 of a diamond and one behind which this call fails; and the
longest common prefixes of the bytes 98 and 97. -/
theorem dry_run_predicts_over_pair :
    let recorder : Recorder Nat := .new (some 2)
    let faulty : FaultyRecorder Nat := ⟨.new none, [(.construct, 2)]⟩
    let pair : Index := ⟨.new ⟨#[98, 97], by simp⟩ .byte .delayed⟩
    (outcome (constructAll Registry.diamond Recorder.manager [3, 0] .delayed recorder) =
      outcome (constructAll Registry.diamond FaultyRecorder.manager [3, 0] .delayed faulty)) ∧
    ∃ schedule ix' r, construct [.lcp] pair = .ok schedule ix' ∧
      constructAll Kind.registry Recorder.manager [.lcp] .delayed (.new none) = .ok schedule r := by
  intro recorder faulty pair
  have hsame : Log.SameAnswers (callsOf Registry.diamond Recorder.manager [3, 0] .delayed recorder)
      (callsOf Registry.diamond FaultyRecorder.manager [3, 0] .delayed faulty) :=
    Log.sameAnswers_of_map_eq (by decide +kernel)
  refine ⟨(dry_run_predicts_real_run.1 Registry.diamond [3, 0] .delayed _ _ recorder faulty hsame).2, ?_⟩
  have hbuilt : ∃ schedule ix', construct [.lcp] pair = .ok schedule ix' :=
    exists_of_isOk (by decide +kernel)
  obtain ⟨schedule, ix', hok⟩ := hbuilt
  obtain ⟨r, hr, -⟩ := dry_run_predicts_real_run.2 _ _ _ _ _ _
    (new_of_text ⟨#[98, 97], by simp⟩ .byte .delayed) hok
  exact ⟨schedule, ix', r, hok, hr⟩

end TextIndex.Index
