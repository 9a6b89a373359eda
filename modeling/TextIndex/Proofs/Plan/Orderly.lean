import TextIndex.Proofs.Plan.Aftermath
import TextIndex.Proofs.Plan.Compression
import TextIndex.Proofs.Plan.Recorded

/-!
# What single calls on record tell

Of the record of a run some things can be said call by call, whatever the order of the calls
(`Recorder.Orderly`): which flag a kind is built with, that only what was requested is compressed and never
released, and that nothing is built which the request does not lead to.

So the record in compressed mode is known from the one in any other mode: all flags are set, and nothing
is compressed afterwards (`Recorder.compressed_run`).
-/

set_option autoImplicit false

namespace TextIndex

variable {K : Type}

/-- The call with the flag that is passed in compressed mode. -/
def Event.flagged : Event K → Event K
  | .construct k _ => .construct k true
  | .ensure k => .ensure k
  | .discard k intermediate => .discard k intermediate
  | .protect k => .protect k
  | .unprotect k => .unprotect k
  | .compress k => .compress k

/-- A call of compressed mode is the flagged one of plain mode. -/
theorem Event.InMode.flagged {call : Event K} (h : call.InMode .compressed) :
    call.uncompressed.map Event.flagged = some call := by
  cases call with
  | construct k compressed =>
    obtain rfl : compressed = true := h
    rfl
  | compress k => cases h
  | _ => rfl

/-- Where nothing was refused, every call of the list has an entry that was accepted. -/
theorem Log.exists_accepted {log : Log K} (h : log.carriedOut = log.map (·.event)) {call : Event K}
    (hcall : call ∈ log.map (·.event)) : ∃ e ∈ log, e.accepted = true ∧ e.event = call := by
  rw [← h] at hcall
  obtain ⟨e, he, rfl⟩ := List.mem_map.1 hcall
  obtain ⟨he, hok⟩ := List.mem_filter.1 he
  exact ⟨e, he, hok, rfl⟩

/-- What has been compressed is marked. -/
theorem Run.Compressed.mem_of_mem_log {S : Type} [DecidableEq K] {s : Session K (Traced K S)}
    (h : Run.Compressed s) {e : Entry K} (he : e ∈ s.manager.log) {k : K}
    (hevent : e.event = .compress k) : k ∈ s.run.compressedKinds := by
  by_contra hno
  have hnone := h.received k
  rw [if_neg hno] at hnone
  exact List.countP_eq_zero.1 hnone e he (by simpa using hevent)

namespace Recorder

variable [DecidableEq K] {registry : Registry K} {requested : List K} {mode : Mode}
  {schedule schedule' : Schedule K} {r r' : Recorder K}

/-- The calls of a run that was asked for `requested`. -/
structure Orderly (registry : Registry K) (requested : List K) (mode : Mode) (calls : List (Event K)) :
    Prop where
  inMode : ∀ call ∈ calls, call.InMode mode
  compressed : ∀ k, .compress k ∈ calls → k ∈ requested
  built : ∀ k compressed, .construct k compressed ∈ calls → registry.Reachable requested k
  kept : ∀ k ∈ requested, ∀ intermediate, .discard k intermediate ∉ calls

/-- The calls of a run that succeeds are orderly. -/
theorem orderly_of_run
    (h : constructAll registry manager requested mode (.new none) = .ok schedule r) :
    Orderly registry requested mode r.events := by
  obtain ⟨run, -, -, hstart, -⟩ := constructAll_eq_ok.1 h
  obtain ⟨L⟩ := Registry.nonempty_layers_of_request (Run.start_ok hstart).1
  have hnew : (new none : Recorder K).failOn = none := rfl
  obtain ⟨t, hrequest, hprimed, -⟩ := Run.request_primes hstart willing hnew
  obtain ⟨slack, htrack⟩ := (Run.tracked_of_request hstart hrequest).tracking
  obtain ⟨hmode, hsettling⟩ := Run.settling_of_request hstart hrequest
  obtain ⟨t', _, v, hrequest', hevaluate, -, haccepted⟩ := Run.run_arrives hstart willing hnew
  cases hrequest.symm.trans hrequest'
  have hend := hprimed.evaluated L hevaluate
  have hevents := events_of_phases hstart h hrequest hevaluate
  obtain ⟨u, hsteps, -, rfl, rfl⟩ :=
    (Run.evaluate_follows L manager.traced hprimed.phase_eq hprimed.sound.registry_eq).of_ok hevaluate
  have htrack' := htrack.steps hsteps
  have hsettled := hsettling.steps htrack hsteps
  have hmode' : u.run.mode = mode := (Run.Steps.mode_eq hsteps).trans hmode
  have hmem : ∀ call ∈ r.events, ∃ e ∈ u.manager.log, e.accepted = true ∧ e.event = call := by
    rw [hevents]
    exact fun call hcall => Log.exists_accepted haccepted hcall
  have hcompressed : ∀ k, .compress k ∈ r.events → k ∈ u.run.compressedKinds := by
    intro k hk
    obtain ⟨e, he, -, hevent⟩ := hmem _ hk
    exact hsettled.compressed.mem_of_mem_log he hevent
  refine ⟨?_, ?_, ?_, ?_⟩
  · intro call hcall
    cases call with
    | construct k compressed =>
      obtain ⟨e, he, -, hevent⟩ := hmem _ hcall
      obtain ⟨before, after, hlog⟩ := List.append_of_mem he
      have hflag := hsettled.flagged before e after hlog k compressed hevent
      rwa [hmode'] at hflag
    | compress k =>
      exact hmode'.symm.trans (hsettled.compressed.requested k (hcompressed k hcall)).1
    | _ => exact trivial
  · intro k hk
    exact (htrack'.mem_requested k).1 (hsettled.compressed.requested k (hcompressed k hk)).2
  · intro k compressed hk
    obtain ⟨⟨_, _⟩, he, rfl, rfl⟩ := hmem _ hk
    have hbuilt : k ∈ u.manager.log.builtKinds := List.mem_filterMap.2 ⟨_, he, rfl⟩
    have hreach := (hprimed.sorted.steps hsteps).reachable k ((htrack'.mem_built k).1 hbuilt)
    exact (htrack'.reachable_iff k).1 hreach
  · intro k hk intermediate hdiscard
    obtain ⟨e, he, -, hevent⟩ := hmem _ hdiscard
    exact (hend.kept k hk).2 e he ⟨intermediate, hevent⟩

/-- The record in compressed mode, from the one in any mode. -/
theorem compressed_run (h : constructAll registry manager requested mode (.new none) = .ok schedule r)
    (h' : constructAll registry manager requested .compressed (.new none) = .ok schedule' r') :
    r'.events = r.events.filterMap fun call => call.uncompressed.map Event.flagged := by
  obtain ⟨_, p, hp, hevents⟩ := plain_run h
  obtain ⟨_, p', hp', hevents'⟩ := plain_run h'
  cases hp.symm.trans hp'
  have hflagged : r'.events.filterMap (fun call => call.uncompressed.map Event.flagged) = r'.events := by
    rw [List.filterMap_congr (g := some), List.filterMap_some]
    exact fun call hcall => ((orderly_of_run h').inMode call hcall).flagged
  calc r'.events = r'.events.filterMap fun call => call.uncompressed.map Event.flagged := hflagged.symm
    _ = (r'.events.filterMap Event.uncompressed).map Event.flagged := List.map_filterMap.symm
    _ = (r.events.filterMap Event.uncompressed).map Event.flagged := by rw [← hevents', hevents]
    _ = r.events.filterMap fun call => call.uncompressed.map Event.flagged := List.map_filterMap

end Recorder

end TextIndex
