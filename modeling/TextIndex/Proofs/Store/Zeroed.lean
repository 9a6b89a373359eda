import Mathlib.Algebra.BigOperators.Ring.List
import TextIndex.Proofs.Store.Lighter

/-!
# Structures that are filled into zeros

The phi array and the prefix array start as a vector of zeros, and zeros reserve four words even if fewer are
needed. Whether these are given back depends on when a structure is compressed.

* Built compressed, it is marked at once and never compressed again. It keeps the four words (`Trim`).
* Built at its full width it has the four words until it is compressed; what is never compressed keeps them
  (`Ample`).

All other structures that are built compressed have no word to spare. For the inverse this is so because it
comes with the suffix array and is not built on its own (`Paired.there_of_construct`).
-/

set_option autoImplicit false

namespace TextIndex

/-- The structure is filled into a vector of zeros. -/
def Kind.zeroed : Kind → Bool
  | phi | lcp => true
  | suffixArray | inverse | plcp | bwt => false

namespace Store

variable {s t : Store} {j k : Kind} {text : SentinelText} {sa : List Nat} {width : Width}
  {mode : Mode} {v : PackedVector} {call : Event Kind}

section Calls

variable (hn : Measurable text.size) (hsa : Sorts (SuffixArray.codes text.bytes) sa)

/-! ## The inverse -/

/-- The inverse is there if the suffix array is. -/
def Paired (s : Store) : Prop := (s.get? .suffixArray).isSome → (s.get? .inverse).isSome

/-- As long as the inverse is not released it stays with the suffix array. -/
theorem Paired.carried (h : Paired s) (ht : Carried text sa s call t)
    (hcall : ∀ intermediate, call ≠ .discard .inverse intermediate) : Paired t := by
  intro hthere
  cases ht with
  | ensure k | protect k | unprotect k =>
    rw [get?_updateFlags] at hthere ⊢
    exact h hthere
  | discard k intermediate =>
    have hk : Kind.inverse ≠ k := by
      rintro rfl
      exact hcall intermediate rfl
    rw [get?_remove] at hthere ⊢
    rw [if_neg hk]
    split at hthere
    · cases hthere
    · exact h hthere
  | compress ht | reduced _ ht =>
    rw [ht.there_eq] at hthere ⊢
    exact h hthere
  | used _ => exact h hthere
  | @raised k compressed _ _ ht =>
    rw [ht.there_iff] at hthere ⊢
    rcases hthere with rfl | ⟨-, hno⟩ | ⟨hthere, -⟩
    · exact Or.inr (Or.inl ⟨rfl, rfl⟩)
    · cases hno
    · exact Or.inr (Or.inr ⟨h hthere, fun hno => by cases hno.2.1⟩)

/-- The inverse is built from the suffix array, with which it has come. -/
theorem Paired.there_of_construct (h : Paired s) (hgood : Good text sa s) {compressed : Bool}
    (hok : manager.answer (.construct .inverse compressed) s = .ok () t) : (s.get? .inverse).isSome := by
  by_contra hnone
  rw [← hgood.isLive_eq, Bool.not_eq_true] at hnone
  have hbuild : Ends (Store.construct .inverse compressed) s
      (fun _ _ => (s.get? .suffixArray).isSome) fun _ _ => True := by
    rw [ends_construct]
    refine ⟨fun hlive => (by rw [hnone] at hlive; cases hlive), fun _ => ?_⟩
    refine (build_spec s .inverse compressed).mono (fun _ u hu => ?_) fun _ _ _ => trivial
    cases hu with
    | stored hv _ _ =>
      cases hv with
      | inverse hsa _ => exact Option.isSome_of_eq_some hsa
  have hthere := h (hbuild.of_ok hok)
  rw [← hgood.isLive_eq, hnone] at hthere
  cases hthere

/-! ## Built compressed -/

/-- What is built compressed reserves what it needs, but never less than zeros. -/
def leastRoom (text : SentinelText) (k : Kind) (w : Width) : Nat :=
  if k.zeroed then max 4 (w.wordsFor text.size) else w.wordsFor text.size

/-- Everything has been built compressed. -/
structure Trim (text : SentinelText) (s : Store) : Prop where
  marked : ∀ k, ¬ s.Loose k
  capacity_eq : ∀ k v, s.get? k = some v → v.buffer.capacity = leastRoom text k v.width

/-- What is marked is not compressed again. -/
theorem construct_marked (hgood : Good text sa s) (hthere : (s.get? k).isSome) (hmarked : ¬ s.Loose k)
    (hok : manager.answer (.construct k true) s = .ok () t) : t = s := by
  have hmark : (s.flags k).compressed = true := by
    rw [← Bool.not_eq_false]
    exact fun hmark => hmarked ⟨hthere, hmark⟩
  have hsame : Ends (Store.construct k true) s (fun _ u => u = s) fun _ _ => True := by
    rw [ends_construct, hgood.isLive_eq, hthere]
    refine ⟨fun _ => ⟨fun _ => ?_, fun hno => by cases hno⟩, fun hno => by cases hno⟩
    rw [ends_compress]
    exact ⟨fun hno => (by rw [hmark] at hno; cases hno), fun _ => rfl⟩
  exact hsame.of_ok hok

/-- What is built compressed reserves the least room for its kind, the inverse apart. -/
theorem New.capacity_of_compressed (hv : New text sa s k true j v) (htext : s.text = text)
    (hj : j = k ∨ k = .suffixArray ∧ j = .inverse) (hk : k ≠ .inverse) :
    v.buffer.capacity = leastRoom text j v.width := by
  have hcapacity := hv.reserves.capacity_eq
  rw [← htext, hcapacity]
  rcases hj with rfl | ⟨rfl, rfl⟩
  · cases j with
    | suffixArray | phi | lcp | bwt => rfl
    | inverse => exact absurd rfl hk
    | plcp => exact reservation_of_cut (Or.inl rfl)
  · rfl

include hn hsa

/-- In compressed mode every structure is marked as soon as it is there. -/
theorem Trim.marked_after (h : Trim text s) (hs : Setup text sa width mode s)
    (hcall : call.InMode .compressed) (hok : manager.answer call s = .ok () t) : ¬ t.Loose j := by
  intro hloose
  have htightens : manager.Tightens true (Setup text sa width mode) get? Loose :=
    manager_tightens hn hsa true
  by_cases haction : call.action = .construct
  · cases call with
    | construct k compressed =>
      obtain rfl : compressed = true := hcall
      rcases htightens.construct k s t j hs hok hloose with hloose | ⟨hno, -⟩
      · exact h.marked j hloose
      · cases hno
    | _ => cases haction
  · apply h.marked j
    apply htightens.other call s j hs haction
    rwa [Manager.after_of_ok hok]

/-- A call of compressed mode. The inverse must have come with the suffix array. -/
theorem Trim.after (h : Trim text s) (hs : InOrder text sa width mode s)
    (hcall : call.InMode .compressed) (hok : manager.answer call s = .ok () t)
    (hinverse : ∀ compressed, call = .construct .inverse compressed → (s.get? .inverse).isSome) :
    Trim text t := by
  have hgood := hs.setup.good
  refine ⟨fun j => h.marked_after hn hsa hs.setup hcall hok, fun j v hv => ?_⟩
  cases hgood.carried hn hsa hs.tidied hok with
  | ensure k | protect k | unprotect k =>
    rw [get?_updateFlags] at hv
    exact h.capacity_eq j v hv
  | discard k intermediate => exact h.capacity_eq j v (get?_of_remove hv)
  | compress _ => cases hcall
  | used _ => cases hcall
  | @reduced k _ hk _ =>
    cases construct_marked hgood hk (h.marked k) hok
    exact h.capacity_eq j v hv
  | @raised k compressed _ hnone ht =>
    obtain rfl : compressed = true := hcall
    rcases ht.old_or_new j v hv with hold | ⟨hempty, hnew⟩
    · exact h.capacity_eq j v hold
    · refine hnew.capacity_of_compressed hgood.text_eq (ht.kind_of_new hv hempty) ?_
      rintro rfl
      have hthere := hinverse true rfl
      rw [hnone] at hthere
      cases hthere

end Calls

/-! ## Built at full width -/

/-- Of the structures that are filled into zeros those that are not requested reserve four words. -/
def Ample (requested : List Kind) (s : Store) : Prop :=
  ∀ k v, k.zeroed = true → k ∉ requested → s.get? k = some v → 4 ≤ v.buffer.capacity

/-- What is filled into zeros reserves four words at least. -/
theorem New.four_le_capacity {compressed : Bool} (hv : New text sa s k compressed j v)
    (hj : j = k ∨ k = .suffixArray ∧ j = .inverse) (hzeroed : j.zeroed = true) :
    4 ≤ v.buffer.capacity := by
  rw [hv.reserves.capacity_eq]
  rcases hj with rfl | ⟨-, rfl⟩
  · cases j with
    | phi | lcp => exact Nat.le_max_left ..
    | _ => cases hzeroed
  · cases hzeroed

/-- A call of delayed mode, in which only what is requested is compressed. -/
theorem Ample.carried {requested : List Kind} (h : Ample requested s) (ht : Carried text sa s call t)
    (hcall : call.InMode .delayed) (hcompress : ∀ k, call = .compress k → k ∈ requested) :
    Ample requested t := by
  intro j v hzeroed hj hv
  cases ht with
  | ensure k | protect k | unprotect k =>
    rw [get?_updateFlags] at hv
    exact h j v hzeroed hj hv
  | discard k intermediate => exact h j v hzeroed hj (get?_of_remove hv)
  | @compress k _ ht =>
    rcases ht.old_or_shrunk j v hv with ⟨hold, -⟩ | ⟨rfl, -, -⟩
    · exact h j v hzeroed hj hold
    · exact absurd (hcompress j rfl) hj
  | used _ => exact h j v hzeroed hj hv
  | reduced _ _ => cases hcall
  | raised _ ht =>
    rcases ht.old_or_new j v hv with hold | ⟨hempty, hnew⟩
    · exact h j v hzeroed hj hold
    · exact hnew.four_le_capacity (ht.kind_of_new hv hempty) hzeroed

/-! ## Side by side -/

section Compared

variable {s' : Store} {v' : PackedVector} {mode' : Mode}

/-- In a trim store every structure is as one that was built compressed. -/
theorem Trim.made (h : Trim text s) (hs : InOrder text sa width mode s) (hv : s.get? k = some v) :
    Made text sa true k v where
  holds := hs.setup.good.holds hv
  least _ := by
    have hmark : (s.flags k).compressed = true := by
      rw [← Bool.not_eq_false]
      exact fun hmark => h.marked k ⟨Option.isSome_of_eq_some hv, hmark⟩
    obtain ⟨u, hu, hleast⟩ := hs.booked.least k hmark
    cases hu.symm.trans hv
    exact hleast

/-- A structure that has been built compressed reserves no more than one that has not, but for the words
that this one does without if it reserves fewer than zeros. -/
theorem Trim.capacity_le (hn : Measurable text.size) (hsa : Sorts (SuffixArray.codes text.bytes) sa)
    (h : Trim text s) (hs : InOrder text sa width mode s) (hs' : InOrder text sa width mode' s')
    (hv : s.get? k = some v) (hv' : s'.get? k = some v') {extra : Nat}
    (hextra : k.zeroed = true → 4 ≤ v'.buffer.capacity + extra ∨
      4 ≤ v.width.wordsFor text.size + extra) :
    v.buffer.capacity ≤ v'.buffer.capacity + extra := by
  have hholds' := hs'.setup.good.holds hv'
  have hneeded := wordsFor_le_capacity hn (hs'.tidied k v' hv') hholds'
    (width_le_of_least hsa (h.made hs hv) hholds')
  rw [h.capacity_eq k v hv]
  unfold leastRoom
  split
  · next hzeroed =>
    have hextra := hextra hzeroed
    omega
  · omega

/-- So many bytes and some more words for each slot. -/
theorem heapBytes_add (s : Store) (extra : Kind → Nat) :
    s.heapBytes + 8 * (Kind.all.map extra).sum =
      (Kind.all.map fun k => (s.slot k).heapBytes + 8 * extra k).sum := by
  rw [heapBytes_eq_sum, List.sum_map_add, List.sum_map_mul_left]

/-- A structure is charged for the words that it reserves. -/
theorem heapBytes_of_there (hv : s.get? k = some v) : (s.slot k).heapBytes = 8 * v.buffer.capacity := by
  have hdata : (s.slot k).data = some v := hv
  unfold Slot.heapBytes
  rw [hdata]
  rfl

/-- Bytes of two stores, slot by slot. -/
theorem heapBytes_le_add {extra : Kind → Nat} (h : ∀ k v, s.get? k = some v →
      ∃ v', s'.get? k = some v' ∧ v.buffer.capacity ≤ v'.buffer.capacity + extra k) :
    s.heapBytes ≤ s'.heapBytes + 8 * (Kind.all.map extra).sum := by
  rw [heapBytes_add, heapBytes_eq_sum]
  refine List.sum_le_sum fun k _ => ?_
  cases hk : s.get? k with
  | none =>
    rw [heapBytes_of_empty hk]
    exact Nat.zero_le _
  | some v =>
    obtain ⟨v', hv', hle⟩ := h k v hk
    rw [heapBytes_of_there hk, heapBytes_of_there hv']
    omega

end Compared

end Store

end TextIndex
