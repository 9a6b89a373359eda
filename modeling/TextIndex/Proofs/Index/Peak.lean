import TextIndex.Proofs.Index.DryRun
import TextIndex.Proofs.Index.Results
import TextIndex.Proofs.Store.Occupancy

/-!
# The schedule bounds the memory

A schedule counts the kinds that are there at once, and the store charges for the structures in its slots.
The two differ: the inverse takes a slot as soon as the suffix array is built, though the plan may have no
use for it, and the phi array gives up its slot when the permuted prefix array is built in its storage.
At no moment are more slots filled than the schedule counts at most, and one more
(`peak_bounded_by_schedule`).

For the longest common prefixes alone three slots suffice in every mode, because the inverse is released
before the second structure is built. That is read off the record of this one request.
-/

set_option autoImplicit false

namespace TextIndex.Index

open Store (Bare Booked Occupied manager)

variable {text : SentinelText} {sa : List Nat} {width : Width} {mode : Mode} {kinds : List Kind}

/-- There is room for every position if there is for the last one. -/
theorem size_le_bound {n fullWidth : Nat} (hwidth : width.bits = fullWidth) (hsize : text.size = n + 1)
    (hroom : n < 2 ^ fullWidth) : text.size ≤ width.bound := by
  rw [hsize]
  show n < 2 ^ width.bits
  rwa [hwidth]

/-- The width of the widest structure that is built uncompressed. -/
def widest (width : Width) : Width where
  bits := max width.bits 8
  one_le := Nat.le_trans width.one_le (Nat.le_max_left ..)
  le_word := max_le width.le_word (by decide)

/-- No structure that is built uncompressed is wider than the widest. -/
theorem fullWidth_le_widest {s : Store} (h : s.width = width) (k : Kind) :
    (s.fullWidth k).bits ≤ (widest width).bits := by
  unfold Store.fullWidth
  split
  · exact Nat.le_max_right ..
  · rw [h]
    exact Nat.le_max_left ..

/-- A new index has a bare store. -/
theorem bare_new (text : SentinelText) (sa : List Nat) (width : Width) (mode : Mode) :
    Bare text sa width mode (Store.new text width mode).beginRun :=
  Bare.beginRun ⟨(sound_new text sa width mode).setup, get?_new text width mode⟩

/-- A new index has used no memory. -/
theorem stats_new (text : SentinelText) (width : Width) (mode : Mode) :
    (Store.new text width mode).beginRun.stats = .zero :=
  Store.beginRun_induction (P := fun s => s.stats = .zero) (fun _ _ hs => hs) rfl

/-- The store of a new index is filled as no calls would leave it. -/
theorem occupied_new (text : SentinelText) (sa : List Nat) (width : Width) (mode : Mode) :
    Occupied text sa width mode [] (Store.new text width mode).beginRun :=
  Store.occupied_of_bare (bare_new text sa width mode) (Store.booked_new text width mode).beginRun.booked

/-- What a construct on a new index is asked for is on record. -/
theorem construct_recorded (hn : Measurable text.size) (hsa : Sorts (SuffixArray.codes text.bytes) sa)
    (hroom : text.size ≤ width.bound) (mode : Mode) (kinds : List Kind) :
    let s := (Store.new text width mode).beginRun
    ∃ schedule t r, construct kinds ⟨.new text width mode⟩ = .ok schedule t ∧
      constructAll Kind.registry Recorder.manager kinds mode (.new none) = .ok schedule r ∧
      r.events = (callsOf Kind.registry manager kinds mode s).map (·.event) ∧
      manager.CarriesOut s r.events ∧ t.store = manager.afterAll s r.events := by
  obtain ⟨schedule, t, hok, -⟩ := (ends_construct_of_room hn hsa (fun _ => hroom)
    (sound_new text sa width mode).setup kinds).exists_ok
  obtain ⟨r, hr, hevents, hcalls, ht⟩ :=
    constructAll_recorded (construct_new (new_of_text text width mode) hok)
  exact ⟨schedule, t, r, hok, hr, hevents, hcalls, ht⟩

section Calls

variable {calls before : List (Event Kind)}

/-- What is held in slots of which none is wider than `w`. -/
theorem heapBytes_le_of_occupied {s : Store} {w : Width} {slots : Nat} (hn : Measurable text.size)
    (h : Occupied text sa width mode calls s)
    (hwidth : ∀ k ∈ Kind.registry.stockAfter calls, (s.fullWidth k).bits ≤ w.bits)
    (hslots : s.filled.length ≤ slots) : s.heapBytes ≤ slots * (8 * max 4 (w.wordsFor text.size)) := by
  have hheld : s.heapBytes ≤ s.filled.length * (8 * max 4 (w.wordsFor text.size)) := by
    apply Store.heapBytes_le
    intro k v hv
    have hcapacity := h.bounded.capacity_le k v hv
    rw [h.inOrder.setup.good.text_eq] at hcapacity
    have hwords : (s.fullWidth k).wordsFor text.size ≤ w.wordsFor text.size :=
      Width.wordsFor_le (hn.measures w) (hwidth k (h.stocked k (Option.isSome_of_eq_some hv)))
    show 8 * v.buffer.capacity ≤ _
    omega
  exact Nat.le_trans hheld (Nat.mul_le_mul_right _ hslots)

variable (hn : Measurable text.size) (hsa : Sorts (SuffixArray.codes text.bytes) sa)
  (hroom : text.size ≤ width.bound)

include hn hsa hroom

/-- The peak of a construct on a new index, if never more slots are filled. -/
theorem peak_le_of_occupied {w : Width} {slots : Nat}
    (hcalls : manager.CarriesOut (Store.new text width mode).beginRun calls)
    (hwidth : ∀ before, before <+: calls → ∀ k ∈ Kind.registry.stockAfter before,
      (Store.fullWidth (Store.new text width mode) k).bits ≤ w.bits)
    (hslots : ∀ before, before <+: calls →
      (manager.afterAll (Store.new text width mode).beginRun before).filled.length ≤ slots) :
    (manager.afterAll (Store.new text width mode).beginRun calls).stats.peak ≤
      slots * (8 * max 4 (w.wordsFor text.size)) := by
  have hstart := occupied_new text sa width mode
  apply hstart.inOrder.peak_le hn hsa
  · rw [stats_new]
    exact Nat.zero_le _
  intro before hbefore
  have hoccupied := hstart.afterAll hn hsa hroom hcalls hbefore
  refine heapBytes_le_of_occupied hn hoccupied ?_ (hslots before hbefore)
  intro k hk
  have hfull := hwidth before hbefore k hk
  unfold Store.fullWidth at hfull ⊢
  rwa [hoccupied.inOrder.setup.width_eq]

end Calls

/-- On the way to the longest common prefixes no more than three kinds are there at once, and never the
transform. -/
theorem stockAfter_lcp (mode : Mode) {schedule : Schedule Kind} {r : Recorder Kind}
    (h : constructAll Kind.registry Recorder.manager [.lcp] mode (.new none) = .ok schedule r)
    {before : List (Event Kind)} (hbefore : before <+: r.events) :
    (Kind.registry.stockAfter before).size ≤ 3 ∧ .bwt ∉ Kind.registry.stockAfter before := by
  have hrecord : ∀ calls ∈ (Manager.reached (constructAll Kind.registry Recorder.manager [.lcp] mode
      (.new none))).events.inits,
      (Kind.registry.stockAfter calls).size ≤ 3 ∧ .bwt ∉ Kind.registry.stockAfter calls := by
    cases mode <;> decide +kernel
  rw [Manager.reached_of_ok h] at hrecord
  exact hrecord before ((List.mem_inits _ _).2 hbefore)

/-- A construct on a new index with room for every position succeeds. At no moment are more slots filled
than the schedule has kinds there at once, and one more; so the peak is at most what vectors of zeros of the
greatest full width take in so many slots. For the longest common prefixes alone it is at most what
three vectors of zeros of the configured width take. The storage of a structure is measured with 64-bit
arithmetic, which is exact for every text that fits into memory. -/
theorem peak_bounded_by_schedule {bytes : Array UInt8} {config : Config} {ix : Index}
    (hn : Measurable (bytes.size + 1)) (hnew : Index.new bytes config = .ok ix)
    (hroom : bytes.size < 2 ^ config.fullWidth) (kinds : List Kind) :
    ∃ schedule t, construct kinds ix = .ok schedule t ∧
      t.store.stats.peak ≤ (schedule.peakLive + 1) *
        (8 * max 4 (((bytes.size + 1) * max config.fullWidth 8 + 63) / 64)) ∧
      (∀ before, before <+:
        (callsOf Kind.registry manager kinds config.mode ix.store.beginRun).map (·.event) →
          (manager.afterAll ix.store.beginRun before).filled.length ≤ schedule.peakLive + 1) ∧
      (kinds = [.lcp] → ∃ v, PackedVector.replicate? ix.store.width (bytes.size + 1) 0 = .ok v ∧
        t.store.stats.peak ≤ 3 * v.heapBytes) := by
  obtain ⟨width, text, sa, hwidth, hsize, hsa, rfl⟩ := new_sorted hnew
  rw [← hsize] at hn ⊢
  have hroom := size_le_bound hwidth hsize hroom
  obtain ⟨schedule, t, r, hok, hr, hevents, hcalls, ht⟩ :=
    construct_recorded hn hsa hroom config.mode kinds
  have hoccupied : ∀ before, before <+: r.events → Occupied text sa width config.mode before
      (manager.afterAll (Store.new text width config.mode).beginRun before) := fun _ =>
    (occupied_new text sa width config.mode).afterAll hn hsa hroom hcalls
  have hfilled : ∀ before, before <+: r.events →
      (manager.afterAll (Store.new text width config.mode).beginRun before).filled.length ≤
        schedule.peakLive + 1 := by
    intro before hbefore
    have hlive := (Recorder.reports_of_run hr).peak.2 ⟨before, hbefore, rfl⟩
    exact Nat.le_trans (Store.length_filled_le (hoccupied before hbefore).stocked)
      (Nat.add_le_add_right hlive 1)
  refine ⟨schedule, t, hok, ?_, ?_, ?_⟩
  · have hwords : (widest width).wordsFor text.size = (text.size * max config.fullWidth 8 + 63) / 64 := by
      rw [Width.wordsFor_eq (hn.measures _), ← hwidth]
      rfl
    rw [ht, ← hwords]
    exact peak_le_of_occupied hn hsa hroom hcalls (fun _ _ k _ => fullWidth_le_widest rfl k) hfilled
  · rw [← hevents]
    exact hfilled
  · rintro rfl
    obtain ⟨v, hv, -⟩ := exists_zeros width text.size
    refine ⟨v, hv, ?_⟩
    have hreserves := PackedVector.reserves_zeros (hn.measures width) (Nat.succ_pos _) hv
    have hbytes : v.heapBytes = 8 * max 4 (width.wordsFor text.size) :=
      congrArg (8 * ·) hreserves.capacity_eq
    rw [hbytes, ht]
    apply peak_le_of_occupied hn hsa hroom hcalls
    · intro before hbefore k hk
      have hbwt : k ≠ .bwt := by
        rintro rfl
        exact (stockAfter_lcp config.mode hr hbefore).2 hk
      unfold Store.fullWidth
      rw [if_neg hbwt]
      exact Nat.le_refl _
    · intro before hbefore
      refine Nat.le_trans ?_ (stockAfter_lcp config.mode hr hbefore).1
      apply List.Subperm.length_le
      exact List.subperm_of_subset (Store.nodup_filled _) fun k hk =>
        (hoccupied before hbefore).stocked k (Store.mem_filled.1 hk)

/-- Over the bytes 98 and 97, with entries of a byte. All six structures together take no more than the
schedule says, and the longest common prefixes alone no more than three vectors of zeros. -/
theorem peak_bounded_over_pair :
    let text : SentinelText := ⟨#[98, 97], by simp⟩
    let ix : Index := ⟨.new text .byte .delayed⟩
    (∃ schedule t, construct Kind.all ix = .ok schedule t ∧
      t.store.stats.peak ≤
        (schedule.peakLive + 1) * (8 * max 4 (((text.body.size + 1) * max 8 8 + 63) / 64))) ∧
    ∃ schedule t v, construct [.lcp] ix = .ok schedule t ∧
      PackedVector.replicate? .byte (text.body.size + 1) 0 = .ok v ∧
      t.store.stats.peak ≤ 3 * v.heapBytes := by
  intro text ix
  have hn : Measurable (text.body.size + 1) := (by decide : 3 * 64 < UInt64.size)
  have hnew := new_of_text text .byte .delayed
  have hroom : text.body.size < 2 ^ Width.byte.bits := by decide
  obtain ⟨schedule, t, hok, hpeak, -⟩ := peak_bounded_by_schedule hn hnew hroom Kind.all
  obtain ⟨schedule', t', hok', -, -, hlcp⟩ := peak_bounded_by_schedule hn hnew hroom [.lcp]
  obtain ⟨v, hv, hle⟩ := hlcp rfl
  exact ⟨⟨schedule, t, hok, hpeak⟩, schedule', t', v, hok', hv, hle⟩

end TextIndex.Index
