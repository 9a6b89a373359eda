import TextIndex.Proofs.Index.Construct
import TextIndex.Proofs.Plan.SideBySide
import TextIndex.Proofs.Store.Marks

/-!
# Results end compressed

In the modes that compress, whatever is held between two calls of a client is marked as compressed, and
a structure that is so marked has the least width of its largest element. In delayed mode this is not
so within a call: what is built is compressed only when no other kind waits for it. That nothing is left
over is a property of the run (`Passage.not_loose`), which needs two things from the index: that what is
held and touched by a run is requested with the rest, and that what was held before was compressed.

A property of stores that all calls of a planner keep, and the start of a run and of a measurement, is kept
by all calls of a client (`afterAll_keeps`).
-/

set_option autoImplicit false

namespace TextIndex.Index

open Store (Setup Bare Good Booked)

variable {text : SentinelText} {sa : List Nat} {width : Width} {mode : Mode} {ix : Index}
  {kinds : List Kind} {k : Kind}

/-! ## What is kept by every call -/

section Keeps

variable {P : Store → Prop} (hcall : ∀ call s, P s → P (Store.manager.after s call))
  (hbegin : ∀ s, P s → P s.beginRun) (hreset : ∀ s, P s → P s.resetPeak)

include hcall hbegin

/-- Building kinds keeps what all calls of the planner keep. -/
theorem construct_keeps (h : P ix.store) (kinds : List Kind) :
    Ends (construct kinds) ix (fun _ t => P t.store) fun _ t => P t.store :=
  ends_construct.2 (constructAll_keeps hcall _ _ _ (hbegin _ h))

include hreset

/-- Every call, also one that fails. -/
theorem after_keeps (h : P ix.store) (call : Call) : P (ix.after call).store := by
  cases call with
  | construct kinds =>
    exact Manager.reached_of_ends (P := fun t : Index => P t.store)
      (construct_keeps hcall hbegin h kinds)
  | require k =>
    exact Manager.reached_of_ends (P := fun t : Index => P t.store)
      (require_keeps h (construct_keeps hcall hbegin h [k]))
  | take k => exact hcall (.discard k false) _ h
  | compress k =>
    have hafter : P (Manager.reached (Store.compress k ix.store)) := hcall (.compress k) _ h
    show P (Manager.reached (Index.compress k ix)).store
    unfold Index.compress
    cases hend : Store.compress k ix.store with
    | ok u t => rwa [Manager.reached_of_ok hend] at hafter
    | error e t => rwa [Manager.reached_of_error hend] at hafter
  | resetPeak => exact hreset _ h

/-- Any calls of an index keep what all calls of the planner keep. -/
theorem afterAll_keeps (h : P ix.store) (calls : List Call) : P (ix.afterAll calls).store := by
  induction calls generalizing ix with
  | nil => exact h
  | cons call calls ih => exact ih (after_keeps hcall hbegin hreset h call)

end Keeps

/-! ## A single construct -/

/-- Starting a run leaves what is loose as it is. -/
theorem loose_beginRun (s : Store) (k : Kind) : s.beginRun.Loose k ↔ s.Loose k := by
  unfold Store.Loose
  rw [Store.get?_beginRun, Store.flags_beginRun]

section Construct

variable (hn : Measurable text.size) (hsa : Sorts (SuffixArray.codes text.bytes) sa)

include hn hsa

/-- Building kinds keeps the statistics right. -/
theorem construct_booked (hgood : Good text sa ix.store) (hbooked : Booked ix.store)
    (kinds : List Kind) :
    Ends (construct kinds) ix (fun _ t => Booked t.store) fun _ t => Booked t.store := by
  refine (construct_keeps (P := fun s => Good text sa s ∧ Booked s) ?_ ?_ ⟨hgood, hbooked⟩ kinds).mono
    (fun _ _ ht => ht.2) fun _ _ ht => ht.2
  · exact fun call s hs => ⟨hs.1.after hn hsa call, (hs.1.after_posts hn hsa hs.2 call).booked⟩
  · exact fun s hs =>
      ⟨Store.beginRun_induction (fun _ _ ht => ht.updateFlags rfl) hs.1, hs.2.beginRun.booked⟩

/-- A run in a mode that compresses leaves nothing loose if nothing was loose before. -/
theorem construct_not_loose (hroom : mode ≠ .compressed → text.size ≤ width.bound)
    (h : Setup text sa width mode ix.store) (hmode : mode ≠ .plain)
    (htight : ∀ k, ¬ ix.store.Loose k) (kinds : List Kind) :
    Ends (construct kinds) ix (fun _ t => ∀ k, ¬ t.store.Loose k) fun _ _ => False := by
  refine (construct_passes hn hsa hroom h kinds).mono ?_ fun _ _ hF => hF
  rintro _ _ ⟨run, t, u, hpassage, rfl⟩ k
  apply hpassage.not_loose (stocks_of_room hn hsa hroom) (Store.manager_tightens hn hsa _)
    h.beginRun hmode
  intro k
  rw [loose_beginRun]
  exact htight k

end Construct

/-! ## Every call -/

/-- An index between two calls. -/
structure Settled (text : SentinelText) (sa : List Nat) (width : Width) (mode : Mode) (ix : Index) :
    Prop where
  sound : Sound text sa width mode ix
  booked : Booked ix.store
  tight : mode ≠ .plain → ∀ k, ¬ ix.store.Loose k

/-- A new index is settled. -/
theorem settled_new (text : SentinelText) (sa : List Nat) (width : Width) (mode : Mode) :
    Settled text sa width mode ⟨.new text width mode⟩ where
  sound := sound_new text sa width mode
  booked := Store.booked_new text width mode
  tight _ k h := by
    have hthere := h.1
    rw [show Store.get? _ k = none from get?_new text width mode k] at hthere
    cases hthere

/-- Nothing is loose where nothing is held. -/
theorem not_loose_of_bare (h : Bare text sa width mode ix.store) (k : Kind) : ¬ ix.store.Loose k := by
  intro hloose
  have hthere := hloose.1
  rw [h.empty] at hthere
  cases hthere

section Calls

variable (hn : Measurable text.size) (hsa : Sorts (SuffixArray.codes text.bytes) sa)

include hn hsa

/-- Building kinds leaves a settled index, also if it fails. -/
theorem Settled.construct (h : Settled text sa width mode ix) (kinds : List Kind) :
    Ends (construct kinds) ix (fun _ t => Settled text sa width mode t) fun _ t =>
      Settled text sa width mode t := by
  have htight : Ends (Index.construct kinds) ix
      (fun _ t => mode ≠ .plain → ∀ k, ¬ t.store.Loose k)
      fun _ t => mode ≠ .plain → ∀ k, ¬ t.store.Loose k := by
    rcases h.sound.room_or_bare with hroom | ⟨hmode, hnarrow, hbare⟩
    · by_cases hplain : mode = .plain
      · refine (h.sound.construct hn hsa kinds).mono ?_ ?_
        · exact fun _ _ _ hmode => absurd hplain hmode
        · exact fun _ _ _ hmode => absurd hplain hmode
      · exact (construct_not_loose hn hsa hroom h.sound.setup hplain (h.tight hplain) kinds).mono
          (fun _ _ ht _ => ht) fun _ _ hF => hF.elim
    · apply (ends_construct_of_narrow hn hmode hnarrow hbare kinds).mono
      · exact fun _ _ ht _ => not_loose_of_bare ht.2
      · exact fun _ _ ht _ => not_loose_of_bare ht.2.2
  exact ((h.sound.construct hn hsa kinds).and
    ((construct_booked hn hsa h.sound.setup.good h.booked kinds).and htight)).mono
    (fun _ _ ht => ⟨ht.1, ht.2.1, ht.2.2⟩) fun _ _ ht => ⟨ht.1, ht.2.1, ht.2.2⟩

/-- Compressing a structure leaves a settled index, also if it fails. -/
theorem Settled.compress (h : Settled text sa width mode ix) (k : Kind) :
    Ends (compress k) ix (fun _ t => Settled text sa width mode t) fun _ t =>
      Settled text sa width mode t := by
  have hgood := h.sound.setup.good
  have htight : Ends (Index.compress k) ix
      (fun _ t => Booked t.store ∧ (mode ≠ .plain → ∀ j, ¬ t.store.Loose j))
      fun _ t => Booked t.store ∧ (mode ≠ .plain → ∀ j, ¬ t.store.Loose j) := by
    rw [ends_compress]
    apply (hgood.compress_ends hn hsa k).mono
    · intro _ s hs
      exact ⟨(hs.posted h.booked).booked, fun hmode j hj => h.tight hmode j (hs.loose hj).1⟩
    · rintro _ s rfl
      exact ⟨h.booked, h.tight⟩
  exact ((h.sound.compress hn hsa k).and htight).mono (fun _ _ ht => ⟨ht.1, ht.2.1, ht.2.2⟩)
    fun _ _ ht => ⟨ht.1, ht.2.1, ht.2.2⟩

/-- Every call leaves an index settled, also one that fails. -/
theorem Settled.after (h : Settled text sa width mode ix) (call : Call) :
    Settled text sa width mode (ix.after call) := by
  cases call with
  | construct kinds => exact Manager.reached_of_ends (h.construct hn hsa kinds)
  | require k => exact Manager.reached_of_ends (require_keeps h (h.construct hn hsa [k]))
  | take k =>
    refine ⟨h.sound.after hn hsa (.take k), (h.booked.remove k).booked, ?_⟩
    exact fun hmode j hj => h.tight hmode j (Store.Loose.of_remove (k := k) hj)
  | compress k => exact Manager.reached_of_ends (h.compress hn hsa k)
  | resetPeak => exact ⟨h.sound.after hn hsa .resetPeak, h.booked.resetPeak, h.tight⟩

/-- After any calls an index is settled. -/
theorem Settled.afterAll (h : Settled text sa width mode ix) (calls : List Call) :
    Settled text sa width mode (ix.afterAll calls) := by
  induction calls generalizing ix with
  | nil => exact h
  | cons call calls ih => exact ih (h.after hn hsa call)

end Calls

/-- What is held is marked, and has its least width. -/
theorem Settled.least (h : Settled text sa width mode ix) (hmode : mode ≠ .plain)
    (hlive : ix.store.isLive k = true) : (ix.store.flags k).compressed = true ∧
      ∃ v, ix.get? k = some v ∧ v.width = .least v.maxValue := by
  have hthere : (ix.store.get? k).isSome := by
    rw [← h.sound.setup.isLive_eq]
    exact hlive
  have hmark : (ix.store.flags k).compressed = true := by
    rw [← Bool.not_eq_false]
    exact fun hmark => h.tight hmode k ⟨hthere, hmark⟩
  exact ⟨hmark, h.booked.least k hmark⟩

/-- A new index, and the suffix array of its text. -/
theorem new_sorted {bytes : Array UInt8} {config : Config} (h : Index.new bytes config = .ok ix) :
    ∃ width text sa, width.bits = config.fullWidth ∧ text.size = bytes.size + 1 ∧
      Sorts (SuffixArray.codes text.bytes) sa ∧ ix = ⟨.new text width config.mode⟩ := by
  obtain ⟨width, text, hwidth, hsize, rfl⟩ := new_ok h
  have hpos : 0 < text.bytes.size := by simp [SentinelText.size]
  exact ⟨width, text, _, hwidth, hsize, (SuffixArray.correct_rankSuffixes hpos).sorts, rfl⟩

/-- In the modes that compress, whatever has been asked of an index, and whether it was carried out or
not, each structure that is held is marked as compressed and has the least width of its largest element.
The storage of a structure is measured with 64-bit arithmetic, which is exact for every text that fits
into memory. -/
theorem held_is_compressed {bytes : Array UInt8} {config : Config} {ix : Index}
    (hn : Measurable (bytes.size + 1)) (hnew : Index.new bytes config = .ok ix)
    (hmode : config.mode ≠ .plain) (calls : List Call) (k : Kind)
    (hlive : (ix.afterAll calls).store.isLive k = true) :
    ((ix.afterAll calls).store.flags k).compressed = true ∧
      ∃ v, (ix.afterAll calls).get? k = some v ∧ v.width = .least v.maxValue := by
  obtain ⟨width, text, sa, -, hsize, hsa, rfl⟩ := new_sorted hnew
  rw [← hsize] at hn
  exact ((settled_new text sa width config.mode).afterAll hn hsa calls).least hmode hlive

/-- Over the bytes 98 and 97 in delayed mode. The phi array is taken out, so that compressing it fails.
The inverse is there before the last run, which comes upon it as a byproduct. -/
theorem held_is_compressed_over_pair :
    let text : SentinelText := ⟨#[98, 97], by simp⟩
    let ix : Index := ⟨.new text .byte .delayed⟩
    let calls : List Call := [.construct [.phi], .take .phi, .compress .phi, .require .inverse,
      .construct [.lcp]]
    let held := ix.afterAll calls
    ((held.store.flags .inverse).compressed = true ∧
        ∃ v, held.get? .inverse = some v ∧ v.width = .least v.maxValue) ∧
      (held.store.flags .lcp).compressed = true ∧
        ∃ v, held.get? .lcp = some v ∧ v.width = .least v.maxValue := by
  intro text ix calls held
  have hn : Measurable (text.body.size + 1) := (by decide : 3 * 64 < UInt64.size)
  have hnew := new_of_text text .byte .delayed
  exact ⟨held_is_compressed hn hnew (by decide) calls .inverse (by decide +kernel),
    held_is_compressed hn hnew (by decide) calls .lcp (by decide +kernel)⟩

end TextIndex.Index
