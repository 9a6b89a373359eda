import Mathlib.Algebra.Order.BigOperators.Group.List
import TextIndex.Proofs.Plan.Recorded
import TextIndex.Proofs.Store.Layout

/-!
# How many slots are filled, and with how much

The bytes that a store holds are at most those of its largest structure for every slot that is filled.

* Which slots can be filled is told by the calls (`Registry.stockAfter`): what was built is there until it is
  released, and so is what came with it. The record of the calls counts the same kinds, but for those that
  came with others; for the kinds of a text that is the inverse alone (`mem_liveKinds_of_stockAfter`).
* How large a structure can be is told by its kind (`Bounded`). In no mode is it wider than one that is built
  uncompressed, and it reserves no more than a vector of zeros of that width.
* The peak takes into account what the store holds after each call, and nothing else (`peak_le_of_calls`).
-/

set_option autoImplicit false

namespace TextIndex

/-! ## Kinds that may be in stock -/

namespace Registry

variable {K : Type} [DecidableEq K] {r : Registry K} {stock : KindSet K} {k : K}

/-- The kinds that may be in stock after a call if those of `stock` may have been before. -/
def restock (r : Registry K) (stock : KindSet K) : Event K → KindSet K
  | .construct k _ => (stock.insert k).insertAll (r.byproducts k)
  | .discard k _ => stock.erase k
  | .ensure _ | .protect _ | .unprotect _ | .compress _ => stock

/-- The kinds that may be in stock after the calls if nothing was at first. -/
def stockAfter (r : Registry K) (calls : List (Event K)) : KindSet K := calls.foldl r.restock .empty

/-- A further call changes what the others left in stock. -/
theorem stockAfter_snoc (r : Registry K) (calls : List (Event K)) (call : Event K) :
    r.stockAfter (calls ++ [call]) = r.restock (r.stockAfter calls) call := by
  unfold stockAfter
  rw [List.foldl_append]
  rfl

/-- A call brings into stock what it builds and what comes with that, and takes out what it releases.
-/
theorem mem_restock {call : Event K} : k ∈ r.restock stock call ↔
    (k ∈ stock ∧ ∀ intermediate, call ≠ .discard k intermediate) ∨
      ∃ j compressed, call = .construct j compressed ∧ (k = j ∨ k ∈ r.byproducts j) := by
  cases call with
  | construct j compressed =>
    unfold restock
    rw [KindSet.mem_insertAll, KindSet.mem_insert]
    simp [or_assoc]
  | discard j intermediate =>
    unfold restock
    simp [eq_comm]
  | _ =>
    unfold restock
    simp

/-- What may be in stock and comes with no other kind is there by the record of the calls. -/
theorem mem_liveKinds_of_stockAfter {calls : List (Event K)} (hk : ∀ j, k ∉ r.byproducts j)
    (h : k ∈ r.stockAfter calls) : k ∈ (Recorder.replay none calls).liveKinds := by
  induction calls using List.reverseRecOn with
  | nil => exact absurd h (KindSet.not_mem_empty k)
  | append_singleton calls call ih =>
    rw [stockAfter_snoc, mem_restock] at h
    unfold Recorder.replay at ih ⊢
    rw [List.foldl_append, List.foldl_cons, List.foldl_nil, Recorder.mem_liveKinds_heard]
    rcases h with ⟨hold, hkept⟩ | ⟨j, compressed, rfl, rfl | hby⟩
    · exact Or.inl ⟨ih hold, hkept⟩
    · exact Or.inr ⟨compressed, rfl⟩
    · exact absurd hby (hk j)

end Registry

namespace Store

variable {s t : Store} {j k : Kind} {text : SentinelText} {sa : List Nat} {width : Width} {mode : Mode}
  {v : PackedVector} {calls : List (Event Kind)} {call : Event Kind}

/-- The kinds whose slots are filled. -/
def filled (s : Store) : List Kind := Kind.all.filter fun k => (s.get? k).isSome

/-- The filled slots are those of the kinds that are there. -/
theorem mem_filled : k ∈ s.filled ↔ (s.get? k).isSome := by
  unfold filled
  rw [List.mem_filter]
  exact and_iff_right (Kind.mem_all k)

/-- No slot is counted twice. -/
theorem nodup_filled (s : Store) : s.filled.Nodup := List.Nodup.filter _ (by decide)

/-- A call fills no slot that the calls do not tell of. -/
theorem Carried.mem_restock (h : Carried text sa s call t) {stock : KindSet Kind}
    (hstock : ∀ k, (s.get? k).isSome → k ∈ stock) (hk : (t.get? k).isSome) :
    k ∈ Kind.registry.restock stock call := by
  rw [Registry.mem_restock]
  cases h with
  | ensure j | protect j | unprotect j =>
    rw [get?_updateFlags] at hk
    exact Or.inl ⟨hstock k hk, fun _ hno => by cases hno⟩
  | discard j intermediate =>
    rw [get?_remove] at hk
    split at hk
    · cases hk
    · next hne =>
      refine Or.inl ⟨hstock k hk, fun _ heq => ?_⟩
      injection heq with heq
      exact hne heq.symm
  | compress ht | reduced _ ht =>
    rw [ht.there_eq] at hk
    exact Or.inl ⟨hstock k hk, fun _ hno => by cases hno⟩
  | used _ => exact Or.inl ⟨hstock k hk, fun _ hno => by cases hno⟩
  | @raised j compressed _ _ ht =>
    rcases (ht.there_iff k).1 hk with rfl | ⟨rfl, rfl⟩ | ⟨hthere, -⟩
    · exact Or.inr ⟨k, compressed, rfl, Or.inl rfl⟩
    · exact Or.inr ⟨.suffixArray, compressed, rfl, Or.inr (by decide)⟩
    · exact Or.inl ⟨hstock k hthere, fun _ hno => by cases hno⟩

/-- Besides the kinds on record only the inverse can be there. -/
theorem length_filled_le (h : ∀ k, (s.get? k).isSome → k ∈ Kind.registry.stockAfter calls) :
    s.filled.length ≤ (Recorder.replay none calls).liveKinds.size + 1 := by
  have hsubset : s.filled ⊆ .inverse :: (Recorder.replay none calls).liveKinds.toList := by
    intro k hk
    rw [List.mem_cons]
    by_cases hinverse : k = .inverse
    · exact Or.inl hinverse
    · right
      refine Registry.mem_liveKinds_of_stockAfter (r := Kind.registry) ?_ (h k (mem_filled.1 hk))
      intro j
      revert hinverse
      cases j <;> cases k <;> decide
  exact (List.subperm_of_subset s.nodup_filled hsubset).length_le

/-! ## How large a structure can be -/

/-- No structure is wider than one that is built uncompressed, or reserves more than zeros of that width. -/
structure Bounded (s : Store) : Prop where
  width_le : ∀ k v, s.get? k = some v → v.width.bits ≤ (s.fullWidth k).bits
  capacity_le : ∀ k v, s.get? k = some v →
    v.buffer.capacity ≤ max 4 ((s.fullWidth k).wordsFor s.text.size)

section Bounded

variable (hn : Measurable text.size) (hsa : Sorts (SuffixArray.codes text.bytes) sa)
  (hroom : text.size ≤ width.bound)

include hsa hroom in
/-- The entries of a structure fit its full width. -/
theorem Setup.fits_fullWidth (h : Setup text sa width mode s)
    (hv : v.Holds (SuffixArray.codes text.bytes) sa k) : (s.fullWidth k).Fits v.maxValue := by
  unfold fullWidth
  split
  · next hbwt =>
    subst hbwt
    rw [maxValue_bwt hsa hv]
    unfold Width.Fits
    rw [UInt8.toNat_toUInt64]
    exact UInt8.toNat_lt _
  · next hbwt =>
    apply PackedVector.fits_maxValue
    intro x hx
    refine hv.fits hsa hbwt ?_ hx
    rwa [SuffixArray.length_codes, text.size_bytes, h.width_eq]

include hsa hroom in
/-- Where the width has room for the text no compressed structure is wider than an uncompressed one. -/
theorem Setup.least_le_fullWidth (h : Setup text sa width mode s) (hv : Made text sa true k v) :
    v.width.bits ≤ (s.fullWidth k).bits := by
  rw [hv.least rfl]
  exact PackedVector.bits_least_le (h.fits_fullWidth hsa hroom hv.holds)

include hn in
/-- What is reserved for a structure of at most its full width. -/
theorem Bounded.reservation_le (h : Bounded s) (htext : s.text = text) {compressed : Bool} {w : Width}
    (hj : j = k ∨ k = .suffixArray ∧ j = .inverse) (hw : w.bits ≤ (s.fullWidth j).bits) :
    s.reservation k compressed w ≤ max 4 ((s.fullWidth j).wordsFor s.text.size) := by
  have hwords : w.wordsFor s.text.size ≤ (s.fullWidth j).wordsFor s.text.size :=
    Width.wordsFor_le (htext ▸ hn.measures _) hw
  have hle : w.wordsFor s.text.size ≤ max 4 ((s.fullWidth j).wordsFor s.text.size) := by omega
  cases k with
  | suffixArray | bwt => exact hle
  | inverse | phi | lcp => exact max_le (Nat.le_max_left ..) hle
  | plcp =>
    obtain rfl : j = .plcp := hj.resolve_right fun hno => by cases hno.1
    unfold reservation
    dsimp only
    split
    · exact hle
    · cases hphi : s.get? .phi with
      | none => exact Nat.zero_le _
      | some p => exact h.capacity_le .phi p hphi

include hn hsa hroom in
/-- A call that is carried out leaves the structures within their bounds. -/
theorem Carried.bounded (h : Carried text sa s call t) (hs : Setup text sa width mode s)
    (ht : Setup text sa width mode t) (hbounded : Bounded s) : Bounded t := by
  have hfull : ∀ k, t.fullWidth k = s.fullWidth k := by
    intro k
    unfold fullWidth
    rw [ht.width_eq, hs.width_eq]
  have htext : t.text = s.text := ht.good.text_eq.trans hs.good.text_eq.symm
  have hnew : ∀ k v, t.get? k = some v → v.width.bits ≤ (s.fullWidth k).bits ∧
      v.buffer.capacity ≤ max 4 ((s.fullWidth k).wordsFor s.text.size) := by
    intro k v hv
    rcases h.old_or_new hv with hold | ⟨hmade, hreserves⟩ | ⟨i, compressed, -, hi, hnew⟩
    · exact ⟨hbounded.width_le k v hold, hbounded.capacity_le k v hold⟩
    · have hwidth := hs.least_le_fullWidth hsa hroom hmade
      refine ⟨hwidth, ?_⟩
      have hwords : v.width.wordsFor s.text.size ≤ (s.fullWidth k).wordsFor s.text.size :=
        Width.wordsFor_le (hs.good.text_eq ▸ hn.measures _) hwidth
      rw [hreserves.capacity_eq]
      omega
    · have hwidth : v.width.bits ≤ (s.fullWidth k).bits := by
        cases compressed with
        | true => exact hs.least_le_fullWidth hsa hroom hnew.made
        | false =>
          rw [hnew.width_eq rfl]
          unfold buildWidth
          split
          · next hplcp =>
            subst hplcp
            cases hphi : s.get? .phi with
            | none => exact Nat.le_refl _
            | some p => exact hbounded.width_le .phi p hphi
          · exact Nat.le_refl _
      refine ⟨hwidth, ?_⟩
      rw [hnew.reserves.capacity_eq]
      exact hbounded.reservation_le hn hs.good.text_eq hi hwidth
  constructor
  · intro k v hv
    rw [hfull]
    exact (hnew k v hv).1
  · intro k v hv
    rw [hfull, htext]
    exact (hnew k v hv).2

end Bounded

/-! ## Calls in a row -/

/-- A store that was empty before the given calls were carried out. -/
structure Occupied (text : SentinelText) (sa : List Nat) (width : Width) (mode : Mode)
    (calls : List (Event Kind)) (s : Store) : Prop where
  inOrder : InOrder text sa width mode s
  bounded : Bounded s
  stocked : ∀ k, (s.get? k).isSome → k ∈ Kind.registry.stockAfter calls

/-- A bare store is filled as no calls leave it. -/
theorem occupied_of_bare (h : Bare text sa width mode s) (hbooked : Booked s) :
    Occupied text sa width mode [] s where
  inOrder := inOrder_of_bare h hbooked
  bounded := ⟨fun k v hv => (by cases (h.empty k).symm.trans hv),
    fun k v hv => (by cases (h.empty k).symm.trans hv)⟩
  stocked k hk := by
    rw [h.empty] at hk
    cases hk

section Calls

variable (hn : Measurable text.size) (hsa : Sorts (SuffixArray.codes text.bytes) sa)

include hn hsa

/-- A call that is carried out fills the store as that call does. -/
theorem Occupied.after (hroom : text.size ≤ width.bound) (h : Occupied text sa width mode calls s)
    (hok : manager.answer call s = .ok () t) : Occupied text sa width mode (calls ++ [call]) t := by
  have hcarried := h.inOrder.setup.good.carried hn hsa h.inOrder.tidied hok
  have ht : InOrder text sa width mode t := by
    rw [← Manager.after_of_ok hok]
    exact h.inOrder.after hn hsa call
  refine ⟨ht, hcarried.bounded hn hsa hroom h.inOrder.setup ht.setup h.bounded, ?_⟩
  intro k hk
  rw [Registry.stockAfter_snoc]
  exact hcarried.mem_restock h.stocked hk

/-- After each of the calls the store is filled as the calls so far have it. -/
theorem Occupied.afterAll (hroom : text.size ≤ width.bound) (h : Occupied text sa width mode [] s)
    (hcalls : manager.CarriesOut s calls) {before : List (Event Kind)} (hbefore : before <+: calls) :
    Occupied text sa width mode before (manager.afterAll s before) :=
  hcalls.induction (P := Occupied text sa width mode) h
    (fun _ _ _ hok hoccupied => hoccupied.after hn hsa hroom hok) hbefore

/-- The peak is at most what it was, or what is held after one of the calls. -/
theorem InOrder.peak_le (h : InOrder text sa width mode s) {bytes : Nat} (hpeak : s.stats.peak ≤ bytes)
    (hheld : ∀ before, before <+: calls → (manager.afterAll s before).heapBytes ≤ bytes) :
    (manager.afterAll s calls).stats.peak ≤ bytes := by
  induction calls using List.reverseRecOn with
  | nil => exact hpeak
  | append_singleton calls call ih =>
    have hle := ih fun before hbefore => hheld before (hbefore.trans (List.prefix_append ..))
    have hcalls := h.afterAll hn hsa calls
    have hposted := hcalls.setup.good.after_posts hn hsa hcalls.booked call
    have hnow := hheld _ List.prefix_rfl
    rw [Manager.afterAll_snoc] at hnow ⊢
    rw [hposted.peak_eq, hposted.booked.current_eq]
    exact max_le hle hnow

end Calls

/-! ## Bytes held -/

/-- If no structure takes more than so many bytes, all of them take that for each filled slot. -/
theorem heapBytes_le {bytes : Nat} (h : ∀ k v, s.get? k = some v → v.heapBytes ≤ bytes) :
    s.heapBytes ≤ s.filled.length * bytes := by
  have hslot : ∀ k, (s.slot k).heapBytes ≤ if (s.get? k).isSome then bytes else 0 := by
    intro k
    cases hk : s.get? k with
    | none =>
      rw [heapBytes_of_empty hk]
      exact Nat.le_refl 0
    | some v =>
      have hdata : (s.slot k).data = some v := hk
      unfold Slot.heapBytes
      rw [hdata]
      exact h k v hk
  calc s.heapBytes = (Kind.all.map fun k => (s.slot k).heapBytes).sum := heapBytes_eq_sum s
    _ ≤ (Kind.all.map fun k => if (s.get? k).isSome then bytes else 0).sum :=
      List.sum_le_sum fun k _ => hslot k
    _ = s.filled.length * bytes := by
      unfold filled
      rw [List.sum_map_ite]
      simp

end Store

end TextIndex
