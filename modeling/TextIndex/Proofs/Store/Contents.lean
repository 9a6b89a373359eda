import TextIndex.Proofs.Packed.Repack
import TextIndex.Proofs.Plan.Calls
import TextIndex.Proofs.Store.Building
import TextIndex.Proofs.Structure.Largest

/-!
# Every stored structure is right

A store answers the calls of a planner, but nothing is assumed here about who calls it: the calls
come in any order, and a call that fails leaves the store that it has reached. `Store.Good` is the
invariant: each slot is marked as live exactly when it has a structure, and the structure is the one
of its kind.

* A kind is built from structures that are in the store, hence right; what is built is right by the
  theorems about the arrays.
* Whether the permuted prefix array is made from the phi array or from a copy, and whether a structure
  is compressed when it is built or later, does not change the list that it stands for.

`Built` says what building a kind does to a good store, and `Compressed` what compressing one does. Everything
that is kept by these calls is read off from there.
-/

set_option autoImplicit false

namespace TextIndex

namespace Store

variable {s t : Store} {k : Kind}

/-! ## The invariant -/

/-- A slot is marked as live when it has a structure, and the structure is the one of its kind. -/
structure GoodSlot (text sa : List Nat) (k : Kind) (slot : Slot) : Prop where
  live_eq : slot.flags.live = slot.data.isSome
  holds : ∀ v, slot.data = some v → v.Holds text sa k

/-- All slots of a store over a text are good. -/
structure Good (text : SentinelText) (sa : List Nat) (s : Store) : Prop where
  text_eq : s.text = text
  slots : ∀ k, GoodSlot (SuffixArray.codes text.bytes) sa k (s.slot k)

variable {text : SentinelText} {sa : List Nat}

/-- A store with nothing built is good. -/
theorem good_new (text : SentinelText) (sa : List Nat) (width : Width) (mode : Mode) :
    Good text sa (new text width mode) where
  text_eq := rfl
  slots k := by
    have hslot : (new text width mode).slot k = {} := by
      unfold slot new
      simp
    rw [hslot]
    exact ⟨rfl, fun v hv => by cases hv⟩

/-- A structure of a good store is the right one for its kind. -/
theorem Good.holds (h : Good text sa s) {k : Kind} {v : PackedVector} (hv : s.get? k = some v) :
    v.Holds (SuffixArray.codes text.bytes) sa k := (h.slots k).holds v hv

/-- A structure is there exactly when its slot is marked. -/
theorem Good.isLive_eq (h : Good text sa s) (k : Kind) : s.isLive k = (s.get? k).isSome :=
  (h.slots k).live_eq

/-- What is not marked as being there is not there. -/
theorem Good.get?_eq_none (h : Good text sa s) {k : Kind} (hk : s.isLive k = false) : s.get? k = none := by
  rwa [h.isLive_eq, ← Bool.not_eq_true, Option.not_isSome_iff_eq_none] at hk

/-- Changing one slot keeps the store good if the slot stays good. -/
theorem Good.updateSlot (h : Good text sa s) {k : Kind} {f : Slot → Slot}
    (hf : GoodSlot (SuffixArray.codes text.bytes) sa k (f (s.slot k))) :
    Good text sa (s.updateSlot k f) where
  text_eq := h.text_eq
  slots j := by
    rw [slot_updateSlot]
    split
    · next hj =>
      rw [hj]
      exact hf
    · exact h.slots j

/-- The statistics do not matter. -/
theorem Good.refresh (h : Good text sa s) : Good text sa s.refresh := ⟨h.text_eq, h.slots⟩

/-- Putting the right structure into a slot keeps a store good. -/
theorem Good.put (h : Good text sa s) {k : Kind} {v : PackedVector} {compressed : Bool}
    (hv : v.Holds (SuffixArray.codes text.bytes) sa k) : Good text sa (s.put k v compressed) :=
  (h.updateSlot ⟨rfl, fun _ heq => by cases heq; exact hv⟩).refresh

/-- Taking a structure out keeps a store good. -/
theorem Good.remove (h : Good text sa s) (k : Kind) : Good text sa (s.remove k) :=
  (h.updateSlot ⟨rfl, fun _ heq => by cases heq⟩).refresh

/-- Changing marks other than the one for being there. -/
theorem Good.updateFlags (h : Good text sa s) {k : Kind} {f : SlotFlags → SlotFlags}
    (hf : (f (s.slot k).flags).live = (s.slot k).flags.live) : Good text sa (s.updateFlags k f) :=
  h.updateSlot ⟨hf.trans (h.slots k).live_eq, (h.slots k).holds⟩

/-! ## What is built -/

/-- The structure of a kind; if it is to be compressed, then at the least width of its largest
element. -/
structure Made (text : SentinelText) (sa : List Nat) (compressed : Bool) (k : Kind)
    (v : PackedVector) : Prop where
  holds : v.Holds (SuffixArray.codes text.bytes) sa k
  least : compressed = true → v.width = .least v.maxValue

/-- What building a kind makes of a store. -/
inductive Built (text : SentinelText) (sa : List Nat) (compressed : Bool) (s : Store) :
    Kind → Store → Prop where
  /-- The structure is put into its slot. -/
  | stored {k : Kind} {v : PackedVector} (hv : Made text sa compressed k v) :
    Built text sa compressed s k (s.put k v compressed)
  /-- The inverse comes with the suffix array, unless it is there. -/
  | withInverse {v u : PackedVector} (hv : Made text sa compressed .suffixArray v)
    (hu : Made text sa compressed .inverse u) (hempty : s.get? .inverse = none) :
    Built text sa compressed s .suffixArray
      ((s.put .suffixArray v compressed).put .inverse u compressed)
  /-- The permuted prefix array takes the storage of the phi array, unless that is shared. -/
  | inPlace {v : PackedVector} (hv : Made text sa compressed .plcp v)
    (hfree : ¬ (s.flags .phi).shared = true) :
    Built text sa compressed s .plcp ((s.remove .phi).put .plcp v compressed)

/-- What compressing a kind makes of a store: nothing if the kind is marked, and otherwise the
structure is replaced. -/
inductive Compressed (text : SentinelText) (sa : List Nat) (s : Store) (k : Kind) : Store → Prop where
  | marked (hmarked : (s.flags k).compressed = true) : Compressed text sa s k s
  | replaced {v : PackedVector} (hthere : (s.get? k).isSome) (hv : Made text sa true k v) :
    Compressed text sa s k
      (s.updateSlot k fun slot => ⟨{ slot.flags with compressed := true }, some v⟩).refresh

/-- Where right structures are placed a kind has been built. -/
theorem Placed.built {P : Kind → PackedVector → Prop} {compressed : Bool} (h : Good text sa s)
    (ht : Placed s compressed P k t) (hP : ∀ j v, P j v → Made text sa compressed j v) :
    Built text sa compressed s k t := by
  cases ht with
  | stored hv _ _ => exact .stored (hP _ _ hv)
  | withInverse hv hu hempty => exact .withInverse (hP _ _ hv) (hP _ _ hu) (h.get?_eq_none hempty)
  | inPlace hv _ hfree => exact .inPlace (hP _ _ hv) (Bool.not_eq_true _ ▸ hfree)

section Build

variable (hn : Measurable text.size) (hsa : Sorts (SuffixArray.codes text.bytes) sa)

include hn

/-- The structures of a text that is measured are measured. -/
theorem measurable_length {v : PackedVector}
    (hv : v.Holds (SuffixArray.codes text.bytes) sa k) : Measurable v.length := by
  rw [hv.length_eq, SuffixArray.length_codes, SentinelText.size_bytes]
  exact hn

/-- A compressed vector has the least width. -/
theorem made_bitCompress {v : PackedVector} (hv : v.Holds (SuffixArray.codes text.bytes) sa k) :
    Made text sa true k v.bitCompress := by
  have hm := (measurable_length hn hv).measures v.width
  have hpacked := PackedVector.repacked_bitCompress hv.housed hm
  exact ⟨hv.congr hpacked.housed hpacked.toList_eq,
    fun _ => PackedVector.width_bitCompress hv.housed hm⟩

include hsa

/-- The width for compressed positions is the least one of the largest position. -/
theorem Good.made_positions (h : Good text sa s) {compressed : Bool} (hk : k.holdsPositions = true)
    {v : PackedVector} (hv : v.Holds (SuffixArray.codes text.bytes) sa k)
    (hwidth : v.width = s.positionWidth compressed) : Made text sa compressed k v where
  holds := hv
  least := by
    rintro rfl
    have hlength : (SuffixArray.codes text.bytes).length = text.size := by
      rw [SuffixArray.length_codes, text.size_bytes]
    have hlargest := maxValue_positions hsa (endsWithLeast_bytes text) (hlength ▸ hn.lt_size) hk hv
    rw [hwidth, hlargest, hlength, ← h.text_eq]
    rfl

/-- What is computed from structures that are right is right as well. -/
theorem Good.made_of_computed (h : Good text sa s) {j : Kind} {compressed : Bool} {v : PackedVector}
    (hv : Computed s compressed k j v) : Made text sa compressed j v := by
  have htext := h.text_eq
  have hbytes : Measurable text.bytes.size := by rwa [SentinelText.size_bytes]
  have hcodes : Measurable (SuffixArray.codes text.bytes).length := by
    rwa [SuffixArray.length_codes]
  cases hv with
  | positions hpair =>
    rw [htext] at hpair
    have hholds := holds_build (hbytes.measures _) (by simp [SentinelText.size]) hsa hpair
    exact h.made_positions hn hsa rfl hholds.1 (width_build hpair).1
  | ranks hpair =>
    rw [htext] at hpair
    have hholds := holds_build (hbytes.measures _) (by simp [SentinelText.size]) hsa hpair
    exact h.made_positions hn hsa rfl hholds.2 (width_build hpair).2
  | inverse hu hv =>
    exact h.made_positions hn hsa rfl (holds_invert (hcodes.measures _) hsa (h.holds hu) hv)
      (width_invert hv)
  | phi hu hv =>
    exact h.made_positions hn hsa rfl (holds_phi (hcodes.measures _) hsa (h.holds hu) hv) (width_phi hv)
  | @plcp phi v hphi hv =>
    have hstorage : (if (s.flags .phi).shared then phi.copy else phi).Holds
        (SuffixArray.codes text.bytes) sa .phi := by
      split
      · exact (h.holds hphi).congr (h.holds hphi).housed rfl
      · exact h.holds hphi
    rw [htext] at hv
    have hplcp := holds_plcp (endsWithLeast_bytes text) hsa (hbytes.measures _) hstorage hv
    cases compressed with
    | true => exact made_bitCompress hn hplcp
    | false => exact ⟨hplcp, by simp⟩
  | lcp hplcp hu hv =>
    have hlcp := holds_lcp (hcodes.measures _) (h.holds hu) (h.holds hplcp) hv
    refine ⟨hlcp, ?_⟩
    rintro rfl
    rw [width_lcp hv, maxValue_lcp hsa hlcp (h.holds hplcp)]
    rfl
  | bwt hu hv =>
    rw [htext] at hv
    have hbwt := holds_transform (hbytes.measures _) (h.holds hu) hv
    refine ⟨hbwt, ?_⟩
    rintro rfl
    rw [width_transform hv, maxValue_bwt hsa hbwt, ← htext]
    rfl

/-- Building a kind stores the structure of the kind. If it fails, the store is as it was, except that
a phi array which is not there has been taken out. -/
theorem Good.build_ends (h : Good text sa s) (k : Kind) (compressed : Bool) :
    Ends (Store.build k compressed) s (fun _ t => Built text sa compressed s k t)
      fun _ t => t = s ∨ s.get? .phi = none ∧ t = s.remove .phi := by
  refine (build_spec s k compressed).mono
    (fun _ _ ht => ht.built h fun _ _ hv => h.made_of_computed hn hsa hv) ?_
  rintro _ t (rfl | ⟨rfl, hrefused⟩)
  · exact Or.inl rfl
  · refine Or.inr ⟨Option.eq_none_iff_forall_ne_some.2 fun phi hphi => ?_, rfl⟩
    -- once there is a phi array to start from, nothing fails any more
    have hm : phi.width.Measures text.bytes.size := by
      rw [SentinelText.size_bytes]
      exact hn.measures _
    obtain ⟨v, hv⟩ := exists_plcp (endsWithLeast_bytes text) hsa hm (h.holds hphi)
    rw [← h.text_eq] at hv
    exact hrefused phi v hphi hv

/-- Shrinking a structure keeps it. -/
theorem Good.made_shrunk (h : Good text sa s) {v v' : PackedVector}
    (hv : v.Holds (SuffixArray.codes text.bytes) sa k) (hshrunk : s.shrunk k v = .ok v') :
    Made text sa true k v' := by
  unfold shrunk at hshrunk
  split at hshrunk
  · next hk =>
    cases hset : v.setWidth (s.positionWidth true) with
    | error e =>
      rw [hset] at hshrunk
      cases hshrunk
    | ok u =>
      rw [hset] at hshrunk
      injection hshrunk with hshrunk
      subst hshrunk
      have hm := (measurable_length hn hv).measures
      have hpacked := PackedVector.repacked_setWidth hv.housed (hm _) (hm _) hset
      exact h.made_positions hn hsa hk (hv.congr hpacked.housed hpacked.toList_eq) hpacked.width_eq
  · injection hshrunk with hshrunk
    subst hshrunk
    exact made_bitCompress hn hv

/-- Compressing a kind that is there replaces its structure; a failure leaves the store as it was. -/
theorem Good.compress_ends (h : Good text sa s) (k : Kind) :
    Ends (Store.compress k) s (fun _ t => Compressed text sa s k t) fun _ t => t = s := by
  rw [ends_compress]
  refine ⟨fun _ => ⟨fun v hv => ⟨fun v' hv' => ?_, fun _ _ => rfl⟩, fun _ => rfl⟩, .marked⟩
  exact .replaced (by rw [hv]; rfl) (h.made_shrunk hn hsa (h.holds hv) hv')

end Build

/-! ## Every call keeps the store good -/

/-- Building a kind keeps a store good. -/
theorem Built.good {compressed : Bool} (h : Good text sa s) (ht : Built text sa compressed s k t) :
    Good text sa t := by
  cases ht with
  | stored hv => exact h.put hv.holds
  | withInverse hv hu _ => exact (h.put hv.holds).put hu.holds
  | inPlace hv _ => exact (h.remove .phi).put hv.holds

/-- Compressing a structure keeps a store good. -/
theorem Compressed.good (h : Good text sa s) (ht : Compressed text sa s k t) : Good text sa t := by
  cases ht with
  | marked _ => exact h
  | replaced hthere hv =>
    exact (h.updateSlot ⟨(h.slots k).live_eq.trans hthere, fun _ heq => by
      cases heq
      exact hv.holds⟩).refresh

section Calls

variable (hn : Measurable text.size) (hsa : Sorts (SuffixArray.codes text.bytes) sa)

include hn hsa

/-- Building a kind stores the structure of the kind, or fails and stores nothing. -/
theorem Good.build (h : Good text sa s) (k : Kind) (compressed : Bool) :
    Ends (Store.build k compressed) s (fun _ t => Good text sa t) fun _ t => Good text sa t := by
  apply (h.build_ends hn hsa k compressed).mono
  · exact fun _ _ ht => ht.good h
  · rintro _ t (rfl | ⟨-, rfl⟩)
    · exact h
    · exact h.remove .phi

/-- A call to compress keeps a store good, also if it fails. -/
theorem Good.compress (h : Good text sa s) (k : Kind) :
    Ends (Store.compress k) s (fun _ t => Good text sa t) fun _ t => Good text sa t :=
  (h.compress_ends hn hsa k).mono (fun _ _ ht => ht.good h) fun _ _ heq => heq ▸ h

/-- Every call keeps the store good, also one that fails. -/
theorem Good.after (h : Good text sa s) (call : Event Kind) : Good text sa (manager.after s call) := by
  cases call with
  | ensure k => exact h.updateFlags (f := fun f => { f with registered := true }) rfl
  | construct k compressed =>
    apply Manager.reached_of_ends
    show Ends (Store.construct k compressed) s _ _
    rw [ends_construct]
    exact ⟨fun _ => ⟨fun _ => h.compress hn hsa k, fun _ => h⟩, fun _ => h.build hn hsa k compressed⟩
  | discard k intermediate => exact h.remove k
  | protect k => exact h.updateFlags (f := fun f => { f with shared := true }) rfl
  | unprotect k => exact h.updateFlags (f := fun f => { f with shared := false }) rfl
  | compress k => exact Manager.reached_of_ends (h.compress hn hsa k)

/-- After any calls of a planner a store is good. -/
theorem Good.afterAll (h : Good text sa s) (calls : List (Event Kind)) :
    Good text sa (manager.afterAll s calls) := by
  induction calls generalizing s with
  | nil => exact h
  | cons call calls ih => exact ih (h.after hn hsa call)

end Calls

/-- Whatever is called, in whatever order and with whatever outcome, each live structure of a store is
the one of its kind, over the only list of positions that sorts the suffixes. The storage of a structure
is measured with 64-bit arithmetic, which is exact for every text that fits into memory. -/
theorem live_structures_right {text : SentinelText} (hn : Measurable text.size) (width : Width)
    (mode : Mode) :
    ∃ sa, Sorts (SuffixArray.codes text.bytes) sa ∧ ∀ (calls : List (Event Kind)) (k : Kind),
      (manager.afterAll (new text width mode) calls).isLive k = true →
        ∃ v, (manager.afterAll (new text width mode) calls).get? k = some v ∧
          Right (SuffixArray.codes text.bytes) sa k v.values := by
  have hsa := (SuffixArray.correct_rankSuffixes
    (show 0 < text.bytes.size by simp [SentinelText.size])).sorts
  refine ⟨_, hsa, ?_⟩
  intro calls k hlive
  have hgood := (good_new text _ width mode).afterAll hn hsa calls
  have hsome : ((manager.afterAll (new text width mode) calls).get? k).isSome = true :=
    (hgood.slots k).live_eq.symm.trans hlive
  obtain ⟨v, hv⟩ := Option.isSome_iff_exists.1 hsome
  exact ⟨v, hv, (hgood.holds hv).right⟩

/-- The text of the bytes 98 and 97: the suffix array is there after it has been built, and also after
its inverse has been built in vain and the permuted prefix array on the way. -/
theorem live_structures_right_pair :
    let text : SentinelText := ⟨#[98, 97], by simp⟩
    let store := manager.afterAll (new text .byte .delayed)
      [.construct .inverse true, .construct .suffixArray true, .construct .phi false,
        .protect .phi, .construct .plcp false, .compress .suffixArray]
    ∃ sa, Sorts (SuffixArray.codes text.bytes) sa ∧
      (∃ v, store.get? .phi = some v ∧ Right (SuffixArray.codes text.bytes) sa .phi v.values) ∧
      ∃ v, store.get? .plcp = some v ∧ Right (SuffixArray.codes text.bytes) sa .plcp v.values := by
  intro text store
  obtain ⟨sa, hsa, h⟩ := live_structures_right
    (show Measurable text.size from (by decide : 3 * 64 < UInt64.size)) .byte .delayed
  exact ⟨sa, hsa, h _ .phi (by decide +kernel), h _ .plcp (by decide +kernel)⟩

end Store

end TextIndex
