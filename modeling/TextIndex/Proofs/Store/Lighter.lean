import Mathlib.Algebra.Order.BigOperators.Group.List
import TextIndex.Proofs.Plan.Recorded
import TextIndex.Proofs.Store.Layout

/-!
# A store that is compressed is lighter

Two stores of a text receive the same calls, but for what these say about compression: the first store may
be told to build a kind compressed and to compress a kind, and the second one is not. Then the first store
has the same structures and none of them is larger (`Lighter`), after each of the calls.

* What is built compressed, or compressed afterwards, has its least width and no word to spare, unless it is
  filled into zeros; and then the uncompressed structure is as well.
* What is built uncompressed in both stores can differ in one case only: the permuted prefix array takes
  over the storage of the phi array, and the phi array may have been compressed.

In delayed mode nothing is built compressed, so what has been compressed in the end has no word to spare
(`Snug`), as it would have if it were built compressed at once.
-/

set_option autoImplicit false

namespace TextIndex

/-- The same calls but for what they say about compression have the same effect on what managers write down
about protections. -/
theorem Manager.Records.held_iff {K E S : Type} {m : Manager K E S} {held : S → K → Prop}
    (hm : m.Records held) {s s' : S} (h : ∀ k, held s k ↔ held s' k) (call : Event K) (k : K) :
    held (m.after s call) k ↔ held (m.afterAll s' call.uncompressed.toList) k := by
  have hother : ∀ e : Event K, e.action ≠ .protect → e.action ≠ .unprotect →
      (held (m.after s' e) k ↔ held s k) := by
    intro e hprotect hunprotect
    rw [hm.other e s' k hprotect hunprotect, h]
  cases call with
  | protect j =>
    show held (m.protect j s) k ↔ held (m.protect j s') k
    rw [hm.protect, hm.protect, h]
  | unprotect j =>
    show held (m.unprotect j s) k ↔ held (m.unprotect j s') k
    rw [hm.unprotect, hm.unprotect, h]
  | compress j =>
    rw [hm.other _ s k (by simp [Event.action]) (by simp [Event.action])]
    exact h k
  | construct j compressed =>
    rw [hm.other _ s k (by simp [Event.action]) (by simp [Event.action])]
    exact (hother (.construct j false) (by simp [Event.action]) (by simp [Event.action])).symm
  | ensure j =>
    rw [hm.other _ s k (by simp [Event.action]) (by simp [Event.action])]
    exact (hother (.ensure j) (by simp [Event.action]) (by simp [Event.action])).symm
  | discard j intermediate =>
    rw [hm.other _ s k (by simp [Event.action]) (by simp [Event.action])]
    exact (hother (.discard j intermediate) (by simp [Event.action]) (by simp [Event.action])).symm

/-- No wider, and with no more words reserved. -/
structure PackedVector.Leaner (v v' : PackedVector) : Prop where
  width_le : v.width.bits ≤ v'.width.bits
  capacity_le : v.buffer.capacity ≤ v'.buffer.capacity

namespace Store

variable {s s' t t' : Store} {j k : Kind} {text : SentinelText} {sa : List Nat} {width : Width}
  {mode mode' : Mode} {v v' : PackedVector} {compressed : Bool} {call : Event Kind}

/-- The same structures are there, and none is larger in the first store. -/
structure Lighter (s s' : Store) : Prop where
  there_eq : ∀ k, (s.get? k).isSome = (s'.get? k).isSome
  leaner : ∀ k v v', s.get? k = some v → s'.get? k = some v' → v.Leaner v'

/-- What the lighter store holds the other one holds too, and no leaner. -/
theorem Lighter.exists_leaner (h : Lighter s s') (hv : s.get? k = some v) :
    ∃ v', s'.get? k = some v' ∧ v.Leaner v' := by
  have hthere : (s'.get? k).isSome := by rw [← h.there_eq, hv]; rfl
  obtain ⟨v', hv'⟩ := Option.isSome_iff_exists.1 hthere
  exact ⟨v', hv', h.leaner k v v' hv hv'⟩

/-- Of two empty stores each is lighter. -/
theorem lighter_of_empty (h : ∀ k, s.get? k = none) (h' : ∀ k, s'.get? k = none) : Lighter s s' where
  there_eq k := by rw [h, h']
  leaner k v v' hv := by cases (h k).symm.trans hv

/-- Structures that reserve no more take no more bytes together. -/
theorem heapBytes_mono (h : ∀ k v, s.get? k = some v →
    ∃ v', s'.get? k = some v' ∧ v.buffer.capacity ≤ v'.buffer.capacity) : s.heapBytes ≤ s'.heapBytes := by
  rw [heapBytes_eq_sum, heapBytes_eq_sum]
  refine List.sum_le_sum fun k _ => ?_
  cases hk : s.get? k with
  | none =>
    rw [heapBytes_of_empty hk]
    exact Nat.zero_le _
  | some v =>
    obtain ⟨v', hv', hle⟩ := h k v hk
    have hdata : (s.slot k).data = some v := hk
    have hdata' : (s'.slot k).data = some v' := hv'
    unfold Slot.heapBytes
    rw [hdata, hdata']
    exact Nat.mul_le_mul_left 8 hle

/-- The lighter store holds no more bytes. -/
theorem Lighter.heapBytes_le (h : Lighter s s') : s.heapBytes ≤ s'.heapBytes := by
  apply heapBytes_mono
  intro k v hv
  obtain ⟨v', hv', hleaner⟩ := h.exists_leaner hv
  exact ⟨v', hv', hleaner.capacity_le⟩

/-! ## Single structures -/

section Structures

variable (hn : Measurable text.size) (hsa : Sorts (SuffixArray.codes text.bytes) sa)

include hsa in
/-- The least width is no wider than any in which the structure is stored. -/
theorem width_le_of_least (hv : Made text sa true k v)
    (hv' : v'.Holds (SuffixArray.codes text.bytes) sa k) : v.width.bits ≤ v'.width.bits := by
  have hmax : v.maxValue = v'.maxValue := congrArg (List.foldl max 0) (hv.holds.toList_eq hsa hv')
  rw [hv.least rfl, hmax]
  exact PackedVector.bits_least_le (PackedVector.fits_maxValue fun _ hx => PackedVector.fits_of_mem hx)

include hsa in
/-- Built at its least width, a structure has the same width wherever it is. -/
theorem width_eq_of_least (hv : Made text sa true k v) (hv' : Made text sa true k v') :
    v.width = v'.width := by
  have hmax : v.maxValue = v'.maxValue := congrArg (List.foldl max 0) (hv.holds.toList_eq hsa hv'.holds)
  rw [hv.least rfl, hv'.least rfl, hmax]

include hn in
/-- A tidy structure has room for its entries at any narrower width. -/
theorem wordsFor_le_capacity {w : Width} (htidy : v'.Tidy)
    (hv' : v'.Holds (SuffixArray.codes text.bytes) sa k) (hwidth : w.bits ≤ v'.width.bits) :
    w.wordsFor text.size ≤ v'.buffer.capacity := by
  have hlength : v'.length = text.size := by
    rw [hv'.length_eq, SuffixArray.length_codes, text.size_bytes]
  calc w.wordsFor text.size
      ≤ v'.width.wordsFor text.size := Width.wordsFor_le (hn.measures _) hwidth
    _ = v'.width.wordsFor v'.length := by rw [hlength]
    _ ≤ v'.buffer.capacity := htidy.wordsFor_le_capacity (by rw [hlength]; exact hn.measures _)

include hn in
/-- A structure without a word to spare reserves no more than a wider one. -/
theorem capacity_le_of_needed (hv : v.buffer.capacity = v.width.wordsFor text.size) (htidy : v'.Tidy)
    (hv' : v'.Holds (SuffixArray.codes text.bytes) sa k) (hwidth : v.width.bits ≤ v'.width.bits) :
    v.buffer.capacity ≤ v'.buffer.capacity :=
  hv.trans_le (wordsFor_le_capacity hn htidy hv' hwidth)

/-- Uncompressed, a kind is built no wider in the lighter store. -/
theorem Lighter.buildWidth_le (h : Lighter s s') (hwidth : s.width = s'.width) (k : Kind) :
    (s.buildWidth k).bits ≤ (s'.buildWidth k).bits := by
  unfold buildWidth fullWidth
  rw [hwidth]
  split
  · cases hphi : s.get? .phi with
    | none =>
      have hphi' : s'.get? .phi = none := by
        rw [← Option.not_isSome_iff_eq_none, ← h.there_eq, hphi]
        simp
      rw [hphi']
    | some p =>
      obtain ⟨p', hphi', hleaner⟩ := h.exists_leaner hphi
      rw [hphi']
      exact hleaner.width_le
  · exact Nat.le_refl _

include hn hsa in
/-- What is built in both stores. -/
theorem Lighter.leaner_of_new (h : Lighter s s') (hs : Setup text sa width mode s)
    (hs' : Setup text sa width mode' s') (hshared : (s.flags .phi).shared = (s'.flags .phi).shared)
    (hsource : k = .plcp → (s.get? .phi).isSome) (hv : New text sa s k compressed j v)
    (hv' : New text sa s' k false j v') : v.Leaner v' := by
  have hwidth : v.width.bits ≤ v'.width.bits := by
    cases compressed with
    | true => exact width_le_of_least hsa hv.made hv'.made.holds
    | false =>
      rw [hv.width_eq rfl, hv'.width_eq rfl]
      exact h.buildWidth_le (hs.width_eq.trans hs'.width_eq.symm) j
  refine ⟨hwidth, ?_⟩
  have hcapacity := hv.reserves.capacity_eq
  have hneeded : v.buffer.capacity = v.width.wordsFor s.text.size →
      v.buffer.capacity ≤ v'.buffer.capacity := by
    rw [hs.good.text_eq]
    exact fun hv => capacity_le_of_needed hn hv hv'.reserves.tidy hv'.made.holds hwidth
  cases k with
  | suffixArray | bwt => exact hneeded hcapacity
  | inverse | phi | lcp =>
    have hwords : v.width.wordsFor text.size ≤ v'.width.wordsFor text.size :=
      Width.wordsFor_le (hn.measures _) hwidth
    rw [hcapacity, hv'.reserves.capacity_eq]
    unfold reservation
    rw [hs.good.text_eq, hs'.good.text_eq]
    dsimp only
    omega
  | plcp =>
    by_cases hcut : compressed = true ∨ (s.flags .phi).shared = true
    · rw [reservation_of_cut hcut] at hcapacity
      exact hneeded hcapacity
    · -- both are built in the storage of the phi array
      obtain ⟨hfull, hfree⟩ := not_or.1 hcut
      obtain rfl : compressed = false := Bool.eq_false_iff.2 hfull
      have hfree := Bool.eq_false_iff.2 hfree
      obtain ⟨p, hp⟩ := Option.isSome_iff_exists.1 (hsource rfl)
      obtain ⟨p', hp', hleaner⟩ := h.exists_leaner hp
      rw [hcapacity, hv'.reserves.capacity_eq, reservation_inPlace hfree hp,
        reservation_inPlace (hshared.symm.trans hfree) hp']
      exact hleaner.capacity_le

end Structures

/-! ## Calls -/

section Calls

variable (hn : Measurable text.size) (hsa : Sorts (SuffixArray.codes text.bytes) sa)
  (h : Lighter s s') (hs : InOrder text sa width mode s) (hs' : InOrder text sa width mode' s')

include h in
/-- Marks weigh nothing. -/
theorem Lighter.updateFlags (f : SlotFlags → SlotFlags) :
    Lighter (s.updateFlags k f) (s'.updateFlags k f) where
  there_eq j := by
    rw [get?_updateFlags, get?_updateFlags]
    exact h.there_eq j
  leaner j v v' hv hv' := by
    rw [get?_updateFlags] at hv hv'
    exact h.leaner j v v' hv hv'

include h in
/-- Taking the same structure out of both keeps the lighter store lighter. -/
theorem Lighter.remove (k : Kind) : Lighter (s.remove k) (s'.remove k) where
  there_eq j := by
    rw [get?_remove, get?_remove]
    split
    · rfl
    · exact h.there_eq j
  leaner j v v' hv hv' := by
    rw [get?_remove] at hv hv'
    split at hv
    · cases hv
    · next hne =>
      rw [if_neg hne] at hv'
      exact h.leaner j v v' hv hv'

include hn hsa h hs hs'

/-- A kind is compressed in the first store. -/
theorem Lighter.shrunk (ht : Shrunk text sa s k t) : Lighter t s' where
  there_eq j := (ht.there_eq j).trans (h.there_eq j)
  leaner j v v' hv hv' := by
    rcases ht.old_or_shrunk j v hv with ⟨hold, -⟩ | ⟨rfl, hmade, hreserves⟩
    · exact h.leaner j v v' hold hv'
    · have hholds := hs'.setup.good.holds hv'
      have hwidth := width_le_of_least hsa hmade hholds
      have hcapacity := hreserves.capacity_eq
      rw [hs.setup.good.text_eq] at hcapacity
      exact ⟨hwidth, capacity_le_of_needed hn hcapacity (hs'.tidied j v' hv') hholds hwidth⟩

/-- A kind is built in both stores. -/
theorem Lighter.raised (hshared : (s.flags .phi).shared = (s'.flags .phi).shared)
    (ht : Raised s k (New text sa s k compressed) t) (ht' : Raised s' k (New text sa s' k false) t') :
    Lighter t t' where
  there_eq j := by
    rw [Bool.eq_iff_iff, ht.there_iff, ht'.there_iff]
    unfold ThereAfter
    rw [h.there_eq, hshared]
  leaner j v v' hv hv' := by
    have hthere := h.there_eq j
    rcases ht.old_or_new j v hv with hold | ⟨hnone, hnew⟩ <;>
      rcases ht'.old_or_new j v' hv' with hold' | ⟨hnone', hnew'⟩
    · exact h.leaner j v v' hold hold'
    · rw [hold, hnone'] at hthere
      cases hthere
    · rw [hnone, hold'] at hthere
      cases hthere
    · exact h.leaner_of_new hn hsa hs.setup hs'.setup hshared ht.source hnew hnew'

/-- Both stores have carried out the same call, but for what it says about compression. -/
theorem Lighter.carried (hshared : (s.flags .phi).shared = (s'.flags .phi).shared)
    (ht : Carried text sa s call t)
    (ht' : ∀ call', call.uncompressed = some call' → Carried text sa s' call' t')
    (hstay : call.uncompressed = none → t' = s') : Lighter t t' := by
  cases ht with
  | ensure k =>
    cases ht' (.ensure k) rfl
    exact h.updateFlags _
  | protect k =>
    cases ht' (.protect k) rfl
    exact h.updateFlags _
  | unprotect k =>
    cases ht' (.unprotect k) rfl
    exact h.updateFlags _
  | discard k intermediate =>
    cases ht' (.discard k intermediate) rfl
    exact h.remove k
  | compress ht =>
    rw [hstay rfl]
    exact h.shrunk hn hsa hs hs' ht
  | @used k hk =>
    cases ht' (.construct k false) rfl with
    | used _ => exact h
    | raised hnone _ =>
      rw [h.there_eq, hnone] at hk
      cases hk
  | @reduced k _ hk ht =>
    cases ht' (.construct k false) rfl with
    | used _ => exact h.shrunk hn hsa hs hs' ht
    | raised hnone _ =>
      rw [h.there_eq, hnone] at hk
      cases hk
  | @raised k compressed _ hk ht =>
    cases ht' (.construct k false) rfl with
    | used hthere =>
      rw [← h.there_eq, hk] at hthere
      cases hthere
    | raised _ ht' => exact h.raised hn hsa hs hs' hshared ht ht'

end Calls

/-! ## Calls in a row -/

/-- Two stores of a text, of which the first is lighter and has never held more. -/
structure Below (text : SentinelText) (sa : List Nat) (width : Width) (mode mode' : Mode) (s s' : Store) :
    Prop where
  inOrder : InOrder text sa width mode s
  inOrder' : InOrder text sa width mode' s'
  shared_iff : ∀ k, (s.flags k).shared = true ↔ (s'.flags k).shared = true
  lighter : Lighter s s'
  peak_le : s.stats.peak ≤ s'.stats.peak

/-- The store below uses no more memory now. -/
theorem Below.current_le (h : Below text sa width mode mode' s s') :
    s.stats.current ≤ s'.stats.current := by
  rw [h.inOrder.booked.current_eq, h.inOrder'.booked.current_eq]
  exact h.lighter.heapBytes_le

section Calls

variable (hn : Measurable text.size) (hsa : Sorts (SuffixArray.codes text.bytes) sa)

include hn hsa

/-- A call, and the same without compression on the other side, keeps the store below. -/
theorem Below.after (h : Below text sa width mode mode' s s')
    (hok : manager.answer call s = .ok () (manager.after s call))
    (hok' : ∀ call', call.uncompressed = some call' →
      manager.answer call' s' = .ok () (manager.after s' call')) :
    Below text sa width mode mode' (manager.after s call)
      (manager.afterAll s' call.uncompressed.toList) := by
  have ht := h.inOrder.after hn hsa call
  have ht' := h.inOrder'.afterAll hn hsa call.uncompressed.toList
  have hlighter : Lighter (manager.after s call) (manager.afterAll s' call.uncompressed.toList) := by
    refine h.lighter.carried hn hsa h.inOrder h.inOrder' (Bool.eq_iff_iff.2 (h.shared_iff .phi))
      (h.inOrder.setup.good.carried hn hsa h.inOrder.tidied hok) ?_ ?_
    · intro call' hcall
      rw [hcall]
      exact h.inOrder'.setup.good.carried hn hsa h.inOrder'.tidied (hok' call' hcall)
    · intro hcall
      rw [hcall]
      rfl
  refine ⟨ht, ht', manager_records.held_iff h.shared_iff call, hlighter, ?_⟩
  have hkept : s'.stats.peak ≤ (manager.afterAll s' call.uncompressed.toList).stats.peak := by
    cases call.uncompressed with
    | none => exact Nat.le_refl _
    | some call' =>
      have hposted := h.inOrder'.setup.good.after_posts hn hsa h.inOrder'.booked call'
      show s'.stats.peak ≤ (manager.after s' call').stats.peak
      rw [hposted.peak_eq]
      exact Nat.le_max_left ..
  rw [(h.inOrder.setup.good.after_posts hn hsa h.inOrder.booked call).peak_eq]
  apply max_le
  · exact Nat.le_trans h.peak_le hkept
  · rw [ht.booked.current_eq]
    refine Nat.le_trans hlighter.heapBytes_le ?_
    rw [← ht'.booked.current_eq]
    exact ht'.booked.current_le

/-- Calls that are carried out by both stores. -/
theorem Below.afterAll (h : Below text sa width mode mode' s s') {calls : List (Event Kind)}
    (hcalls : manager.CarriesOut s calls)
    (hcalls' : manager.CarriesOut s' (calls.filterMap Event.uncompressed)) :
    Below text sa width mode mode' (manager.afterAll s calls)
      (manager.afterAll s' (calls.filterMap Event.uncompressed)) := by
  refine hcalls.induction (P := fun before t => Below text sa width mode mode' t
    (manager.afterAll s' (before.filterMap Event.uncompressed))) h ?_ List.prefix_rfl
  intro before call hprefix hok hbelow
  have hsplit : (before ++ [call]).filterMap Event.uncompressed =
      before.filterMap Event.uncompressed ++ call.uncompressed.toList := by
    rw [List.filterMap_append]
    cases hcall : call.uncompressed <;> simp [hcall]
  have hprefix' := hprefix.filterMap Event.uncompressed
  rw [hsplit] at hprefix' ⊢
  rw [Manager.afterAll_snoc] at hok ⊢
  have hlater : manager.afterAll s' (before.filterMap Event.uncompressed ++ call.uncompressed.toList) =
      manager.afterAll (manager.afterAll s' (before.filterMap Event.uncompressed))
        call.uncompressed.toList := List.foldl_append ..
  rw [hlater]
  apply hbelow.after hn hsa hok
  intro call' hcall
  rw [hcall] at hprefix'
  have hok' := hcalls' _ call' hprefix'
  rwa [Manager.afterAll_snoc] at hok'

end Calls

/-! ## Compressed in the end -/

/-- What is marked as compressed has no word to spare. -/
def Snug (s : Store) : Prop := ∀ k v, s.get? k = some v → (s.flags k).compressed = true →
  v.buffer.capacity = v.width.wordsFor s.text.size

/-- The calls of a run in delayed mode mark nothing that has a word to spare. -/
theorem Snug.after (hn : Measurable text.size) (hsa : Sorts (SuffixArray.codes text.bytes) sa)
    (h : Snug s) (hs : InOrder text sa width mode s) (hcall : call.InMode .delayed) :
    Snug (manager.after s call) := by
  have htext : (manager.after s call).text = s.text :=
    ((hs.after hn hsa call).setup.good.text_eq).trans hs.setup.good.text_eq.symm
  intro k v hv hmark
  rw [htext]
  by_cases hcompress : ∃ j, call = .compress j
  · obtain ⟨j, rfl⟩ := hcompress
    rcases hs.carried_or_same hn hsa (.compress j) with hcarried | hsame
    · cases hcarried with
      | compress ht =>
        rcases ht.old_or_shrunk k v hv with ⟨hold, hsame⟩ | ⟨-, -, hreserves⟩
        · exact h k v hold (hsame.symm.trans hmark)
        · exact hreserves.capacity_eq
    · rw [hsame] at hv hmark
      exact h k v hv hmark
  · have hplain : call.InMode .plain := by
      cases call with
      | compress j => exact absurd ⟨j, rfl⟩ hcompress
      | _ => exact hcall
    cases hs.setup.good.origins_after hplain k v hv with
    | kept hold hsame => exact h k v hold (hsame.symm.trans hmark)
    | built _ hunmarked _ =>
      rw [hunmarked] at hmark
      cases hmark

end Store

end TextIndex
