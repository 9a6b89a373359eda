import Mathlib.Order.Bounds.Basic
import TextIndex.Proofs.Store.Supply

/-!
# The marks and the statistics of a store

A store keeps books about itself: marks on the slots, the bytes held now, and the most that was held
since the measurement began. `bookkeeping_truthful` says that they are right after any operations, and
that a call which fails leaves no trace at all.

* `Booked` is the invariant, beside the one that every structure is right. That a compressed slot has
  the least width rests on what the largest entry of each array is.
* `Posted` is the step: what the peak is afterwards. Building the suffix array puts two structures into
  the store and building the permuted prefix array may take one out first, so there is a store in
  between that no caller sees. It never holds more than the larger of the two around it
  (`Posted.trans`).
* A call fails before it changes anything. Taking out a phi array that is not there is no exception,
  since the books of an empty slot are in order already (`remove_of_empty`).
-/

set_option autoImplicit false

namespace TextIndex.Store

variable {s t u : Store} {k : Kind}

/-! ## The invariant -/

/-- A slot that is marked as compressed has a structure, at the least width of its largest element. -/
def LeastSlot (slot : Slot) : Prop :=
  slot.flags.compressed = true → ∃ v, slot.data = some v ∧ v.width = .least v.maxValue

/-- The marks for compression are right, and the statistics are up to date. -/
structure Booked (s : Store) : Prop where
  least : ∀ k, LeastSlot (s.slot k)
  current_eq : s.stats.current = s.heapBytes
  current_le : s.stats.current ≤ s.stats.peak

/-- A step from one store to another: the books are right afterwards, and the peak takes the new store
into account and nothing else. -/
structure Posted (s t : Store) : Prop where
  booked : Booked t
  peak_eq : t.stats.peak = max s.stats.peak t.stats.current

/-- A new store has nothing to book. -/
theorem booked_new (text : SentinelText) (width : Width) (mode : Mode) :
    Booked (new text width mode) where
  least k := by
    have hslot : (new text width mode).slot k = {} := by
      unfold slot new
      simp
    rw [hslot]
    exact fun hcompressed => by cases hcompressed
  current_eq := rfl
  current_le := Nat.le_refl 0

/-- A step that leaves the statistics alone. -/
theorem Booked.posted (h : Booked s) (ht : Booked t) (hstats : t.stats = s.stats) : Posted s t where
  booked := ht
  peak_eq := by
    rw [hstats]
    exact (max_eq_left h.current_le).symm

/-- Two steps are one when the store in between holds no more than what is held at the end, or was
held at some time before. -/
theorem Posted.trans (h : Posted s t) (h' : Posted t u)
    (hle : t.stats.current ≤ max s.stats.peak u.stats.current) : Posted s u where
  booked := h'.booked
  peak_eq := by
    rw [h'.peak_eq, h.peak_eq]
    omega

/-- Changing one slot and bringing the statistics up to date. -/
theorem Booked.updateSlot (h : Booked s) {f : Slot → Slot} (hf : LeastSlot (f (s.slot k))) :
    Posted s (s.updateSlot k f).refresh where
  booked := {
    least := fun j => by
      show LeastSlot ((s.updateSlot k f).slot j)
      rw [slot_updateSlot]
      split
      · exact hf
      · exact h.least j
    current_eq := rfl
    current_le := Nat.le_max_right .. }
  peak_eq := rfl

/-- Putting a structure into its slot is booked, if it is as narrow as its mark says. -/
theorem Booked.put (h : Booked s) {v : PackedVector} {compressed : Bool}
    (hv : compressed = true → v.width = .least v.maxValue) : Posted s (s.put k v compressed) :=
  h.updateSlot fun hcompressed => ⟨v, rfl, hv hcompressed⟩

/-- Taking a structure out is booked. -/
theorem Booked.remove (h : Booked s) (k : Kind) : Posted s (s.remove k) :=
  h.updateSlot fun hcompressed => by cases hcompressed

/-- Changing marks other than the one for being compressed. -/
theorem Booked.updateFlags (h : Booked s) {f : SlotFlags → SlotFlags}
    (hf : (f (s.slot k).flags).compressed = (s.slot k).flags.compressed) :
    Booked (s.updateFlags k f) where
  least j := by
    unfold Store.updateFlags
    rw [slot_updateSlot]
    split
    · exact fun hcompressed => h.least k (hf ▸ hcompressed)
    · exact h.least j
  current_eq := h.current_eq.trans (heapBytes_updateFlags s k f).symm
  current_le := h.current_le

/-- A new run changes nothing that is booked. -/
theorem Booked.beginRun (h : Booked s) : Posted s s.beginRun := by
  obtain ⟨hbooked, hstats⟩ : Booked s.beginRun ∧ s.beginRun.stats = s.stats :=
    beginRun_induction (P := fun t => Booked t ∧ t.stats = s.stats)
      (fun _ _ ht => ⟨ht.1.updateFlags rfl, ht.2⟩) ⟨h, rfl⟩
  exact h.posted hbooked hstats

/-- The peak begins anew at what is held. -/
theorem Booked.resetPeak (h : Booked s) : Booked s.resetPeak where
  least := h.least
  current_eq := h.current_eq
  current_le := Nat.le_refl _

/-! ## Building and compressing -/

variable {text : SentinelText} {sa : List Nat}

/-- Nothing changes when an empty slot is emptied. -/
theorem remove_of_empty (h : Good text sa s) (hbooked : Booked s) (hempty : s.get? k = none) :
    s.remove k = s := by
  have hdata : (s.slot k).data = none := hempty
  have hlive : (s.slot k).flags.live = false := by
    rw [(h.slots k).live_eq, hdata]
    rfl
  have hcompressed : (s.slot k).flags.compressed = false := by
    rw [Bool.eq_false_iff]
    intro hcompressed
    obtain ⟨v, hv, -⟩ := hbooked.least k hcompressed
    rw [hdata] at hv
    cases hv
  have hvacate : (s.slot k).vacate = s.slot k := by
    generalize s.slot k = slot at hdata hlive hcompressed
    obtain ⟨⟨registered, live, shared, compressed⟩, data⟩ := slot
    cases hdata
    cases hlive
    cases hcompressed
    rfl
  have hslots : s.updateSlot k Slot.vacate = s := by
    unfold Store.updateSlot
    rw [hvacate]
    unfold slot
    simp
  have hstats : s.stats.record s.heapBytes = s.stats := by
    unfold MemoryStats.record
    rw [← hbooked.current_eq, max_eq_left hbooked.current_le]
  unfold Store.remove
  rw [hslots]
  unfold Store.refresh
  rw [hstats]

/-- The store with the suffix array alone holds less than with its inverse, and the one without the phi
array less than before. -/
theorem Built.posted (hbooked : Booked s) {compressed : Bool} (ht : Built text sa compressed s k t) :
    Posted s t := by
  cases ht with
  | stored hv => exact hbooked.put hv.least
  | @withInverse v u hv hu hempty =>
    have hput : Posted s (s.put .suffixArray v compressed) := hbooked.put hv.least
    have hput' := hput.booked.put (k := .inverse) hu.least
    have hle : (s.put .suffixArray v compressed).heapBytes ≤
        ((s.put .suffixArray v compressed).put .inverse u compressed).heapBytes :=
      heapBytes_le_put (by simpa using hempty) u compressed
    apply hput.trans hput'
    rw [hput.booked.current_eq, hput'.booked.current_eq]
    exact Nat.le_trans hle (Nat.le_max_right ..)
  | inPlace hv _ =>
    have hremoved := hbooked.remove .phi
    have hle : (s.remove .phi).stats.current ≤ s.stats.current := by
      rw [hremoved.booked.current_eq, hbooked.current_eq]
      exact heapBytes_remove_le s .phi
    apply hremoved.trans (hremoved.booked.put hv.least)
    exact Nat.le_trans (Nat.le_trans hle hbooked.current_le) (Nat.le_max_left ..)

/-- Compressing a structure is booked. -/
theorem Compressed.posted (hbooked : Booked s) (ht : Compressed text sa s k t) : Posted s t := by
  cases ht with
  | marked _ => exact hbooked.posted hbooked rfl
  | @replaced v _ hv => exact hbooked.updateSlot fun _ => ⟨v, rfl, hv.least rfl⟩

section Calls

variable (hn : Measurable text.size) (hsa : Sorts (SuffixArray.codes text.bytes) sa)

include hn hsa

/-- Building posts what is built, and a failure leaves no trace. -/
theorem Good.build_posts (h : Good text sa s) (hbooked : Booked s) (k : Kind) (compressed : Bool) :
    Ends (Store.build k compressed) s (fun _ t => Posted s t) fun _ t => t = s := by
  apply (h.build_ends hn hsa k compressed).mono
  · exact fun _ _ ht => ht.posted hbooked
  · rintro _ t (rfl | ⟨hnone, rfl⟩)
    · rfl
    · exact remove_of_empty h hbooked hnone

/-- A call to compress is booked, and leaves the store as it was if it fails. -/
theorem Good.compress_posts (h : Good text sa s) (hbooked : Booked s) (k : Kind) :
    Ends (Store.compress k) s (fun _ t => Posted s t) fun _ t => t = s :=
  (h.compress_ends hn hsa k).mono (fun _ _ ht => ht.posted hbooked) fun _ _ heq => heq

/-- A call to build is booked, and leaves the store as it was if it fails. -/
theorem Good.construct_posts (h : Good text sa s) (hbooked : Booked s) (k : Kind)
    (compressed : Bool) :
    Ends (Store.construct k compressed) s (fun _ t => Posted s t) fun _ t => t = s := by
  rw [ends_construct]
  exact ⟨fun _ => ⟨fun _ => h.compress_posts hn hsa hbooked k, fun _ => hbooked.posted hbooked rfl⟩,
    fun _ => h.build_posts hn hsa hbooked k compressed⟩

/-- Every call is posted, also one that fails. -/
theorem Good.after_posts (h : Good text sa s) (hbooked : Booked s) (call : Event Kind) :
    Posted s (manager.after s call) := by
  have hsame := hbooked.posted hbooked rfl
  cases call with
  | ensure k =>
    exact hbooked.posted (hbooked.updateFlags (f := fun f => { f with registered := true }) rfl) rfl
  | construct k compressed =>
    apply Manager.reached_of_ends
    exact (h.construct_posts hn hsa hbooked k compressed).mono (fun _ _ ht => ht)
      fun _ _ heq => heq ▸ hsame
  | discard k intermediate => exact hbooked.remove k
  | protect k =>
    exact hbooked.posted (hbooked.updateFlags (f := fun f => { f with shared := true }) rfl) rfl
  | unprotect k =>
    exact hbooked.posted (hbooked.updateFlags (f := fun f => { f with shared := false }) rfl) rfl
  | compress k =>
    apply Manager.reached_of_ends
    exact (h.compress_posts hn hsa hbooked k).mono (fun _ _ ht => ht) fun _ _ heq => heq ▸ hsame

end Calls

/-! ## Operations in a row -/

/-- What is done to a store: the calls of a planner, and what the owner does between them. -/
inductive Operation where
  | call (event : Event Kind)
  | take (k : Kind)
  | beginRun
  | resetPeak
deriving DecidableEq

/-- The store after an operation, carried out or refused. -/
def Operation.apply (s : Store) : Operation → Store
  | .call event => manager.after s event
  | .take k => (s.take k).2
  | .beginRun => s.beginRun
  | .resetPeak => s.resetPeak

/-- A store, and the stores that it has been since the measurement of the greatest use began, itself
among them. -/
structure Measurement where
  store : Store
  seen : List Store

namespace Measurement

/-- The measurement begins. -/
def start (s : Store) : Measurement := ⟨s, [s]⟩

/-- One operation more. -/
def next (m : Measurement) (operation : Operation) : Measurement :=
  let t := operation.apply m.store
  if operation = .resetPeak then start t else ⟨t, m.seen ++ [t]⟩

/-- The measurement after operations in a row. -/
def after (m : Measurement) (operations : List Operation) : Measurement := operations.foldl next m

end Measurement

/-- The books of a store are right. -/
structure Truthful (m : Measurement) : Prop where
  live_iff : ∀ k, (m.store.flags k).live = true ↔ ∃ v, m.store.get? k = some v
  compressed : ∀ k, (m.store.flags k).compressed = true →
    (m.store.flags k).live = true ∧ ∃ v, m.store.get? k = some v ∧ v.width = .least v.maxValue
  current_eq : m.store.stats.current = (Kind.all.map fun k => (m.store.slot k).heapBytes).sum
  peak : IsGreatest {bytes | ∃ t ∈ m.seen, t.stats.current = bytes} m.store.stats.peak
  construct_error : ∀ k compressed e t, manager.construct k compressed m.store = .error e t →
    t = m.store
  compress_error : ∀ k e t, manager.compress k m.store = .error e t → t = m.store

/-- The bytes of a store are the sum over its slots. -/
theorem heapBytes_eq_sum (s : Store) :
    s.heapBytes = (Kind.all.map fun k => (s.slot k).heapBytes).sum := by
  unfold heapBytes
  rw [List.sum_eq_foldl, List.foldl_map]

/-- The invariant of operations in a row. -/
structure Kept (text : SentinelText) (sa : List Nat) (m : Measurement) : Prop where
  good : Good text sa m.store
  booked : Booked m.store
  peak : IsGreatest {bytes | ∃ t ∈ m.seen, t.stats.current = bytes} m.store.stats.peak

/-- The measurement begins with a store whose peak is what it holds. -/
theorem kept_start (h : Good text sa s) (hbooked : Booked s)
    (hpeak : s.stats.peak = s.stats.current) : Kept text sa (.start s) where
  good := h
  booked := hbooked
  peak := by
    show IsGreatest _ s.stats.peak
    rw [hpeak]
    refine ⟨⟨s, List.mem_singleton_self s, rfl⟩, ?_⟩
    rintro bytes ⟨t, ht, rfl⟩
    rw [List.mem_singleton.1 ht]

/-- The measurement goes on. -/
theorem Kept.post {m : Measurement} (h : Kept text sa m) (ht : Good text sa t)
    (hposted : Posted m.store t) : Kept text sa ⟨t, m.seen ++ [t]⟩ where
  good := ht
  booked := hposted.booked
  peak := by
    obtain ⟨⟨greatest, hmem, hgreatest⟩, hbound⟩ := h.peak
    show IsGreatest _ t.stats.peak
    rw [hposted.peak_eq]
    constructor
    · rcases Nat.le_total m.store.stats.peak t.stats.current with hle | hle
      · exact ⟨t, by simp, (max_eq_right hle).symm⟩
      · exact ⟨greatest, by simp [hmem], hgreatest.trans (max_eq_left hle).symm⟩
    · rintro bytes ⟨r, hr, rfl⟩
      rcases List.mem_append.1 hr with hr | hr
      · exact Nat.le_trans (hbound ⟨r, hr, rfl⟩) (Nat.le_max_left ..)
      · rw [List.mem_singleton.1 hr]
        exact Nat.le_max_right ..

section Kept

variable (hn : Measurable text.size) (hsa : Sorts (SuffixArray.codes text.bytes) sa)
  {m : Measurement}

include hn hsa

/-- Every operation keeps the measurement right. -/
theorem Kept.next (h : Kept text sa m) (operation : Operation) : Kept text sa (m.next operation) := by
  cases operation with
  | call event => exact h.post (h.good.after hn hsa event) (h.good.after_posts hn hsa h.booked event)
  | take k => exact h.post (h.good.remove k) (h.booked.remove k)
  | beginRun =>
    exact h.post (beginRun_induction (fun _ _ ht => ht.updateFlags rfl) h.good) h.booked.beginRun
  | resetPeak => exact kept_start ⟨h.good.text_eq, h.good.slots⟩ h.booked.resetPeak rfl

/-- Any operations keep the measurement right. -/
theorem Kept.after (h : Kept text sa m) (operations : List Operation) :
    Kept text sa (m.after operations) := by
  induction operations generalizing m with
  | nil => exact h
  | cons operation operations ih => exact ih (h.next hn hsa operation)

/-- A measurement that is kept right is truthful. -/
theorem Kept.truthful (h : Kept text sa m) : Truthful m where
  live_iff k := by
    rw [← Option.isSome_iff_exists]
    exact Bool.eq_iff_iff.1 (h.good.slots k).live_eq
  compressed k hcompressed := by
    obtain ⟨v, hv, hwidth⟩ := h.booked.least k hcompressed
    refine ⟨?_, v, hv, hwidth⟩
    show (m.store.slot k).flags.live = true
    rw [(h.good.slots k).live_eq, hv]
    rfl
  current_eq := h.booked.current_eq.trans (heapBytes_eq_sum m.store)
  peak := h.peak
  construct_error k compressed _ _ herror :=
    (h.good.construct_posts hn hsa h.booked k compressed).of_error herror
  compress_error k _ _ herror := (h.good.compress_posts hn hsa h.booked k).of_error herror

end Kept

/-- Whatever is done to a store, in whatever order and with whatever outcome, its marks and its
statistics are right, and a failure to build or to compress leaves it exactly as it was. The storage of a
structure is measured with 64-bit arithmetic, which is exact for every text that fits into memory. -/
theorem bookkeeping_truthful {text : SentinelText} (hn : Measurable text.size) (width : Width)
    (mode : Mode) (operations : List Operation) :
    Truthful ((Measurement.start (new text width mode)).after operations) := by
  have hsa := (SuffixArray.correct_rankSuffixes
    (show 0 < text.bytes.size by simp [SentinelText.size])).sorts
  have hstart := kept_start (good_new text (SuffixArray.rankSuffixes text.bytes).positions width mode)
    (booked_new text width mode) rfl
  exact (hstart.after hn hsa operations).truthful hn hsa

/-- The text of the bytes 98 and 97. -/
def pair : SentinelText := ⟨#[98, 97], by simp⟩

/-- The suffix array is built compressed. Then the measurement begins anew, and the permuted prefix array
is built in place of the phi array and taken out. -/
def pairMeasured : Measurement :=
  (Measurement.start (new pair .byte .delayed)).after
    [.call (.construct .suffixArray true), .call (.construct .phi false), .resetPeak, .beginRun,
      .call (.construct .plcp false), .take .plcp]

/-- The suffix array is at its least width, the peak is measured from the reset on, and the common
prefixes by rank cannot be built, which changes nothing. -/
theorem bookkeeping_truthful_pair :
    (∃ v, pairMeasured.store.get? .suffixArray = some v ∧ v.width = .least v.maxValue) ∧
      IsGreatest {bytes | ∃ t ∈ pairMeasured.seen, t.stats.current = bytes}
        pairMeasured.store.stats.peak ∧
      ∃ e, manager.construct .lcp true pairMeasured.store = .error e pairMeasured.store := by
  have h : Truthful pairMeasured := bookkeeping_truthful
    (show Measurable pair.size from (by decide : 3 * 64 < UInt64.size)) .byte .delayed _
  obtain ⟨e, t, herror⟩ : ∃ e t, manager.construct .lcp true pairMeasured.store = .error e t :=
    exists_of_isError (by decide +kernel)
  refine ⟨(h.compressed .suffixArray (by decide +kernel)).2, h.peak, e, ?_⟩
  rw [herror, h.construct_error .lcp true e t herror]

end TextIndex.Store
