import TextIndex.Proofs.Index.Results
import TextIndex.Proofs.Store.Idle
import TextIndex.Proofs.Store.Zeroed

/-!
# What a copy is charged for

The statistics of an index tell what its structures reserve. A copy of the index takes over the statistics,
but its structures are copies that reserve only what they use. So the copy is charged for the words that are
idle in the original, until its next change (`copy_charged_for_idle`). There are none unless zeros have been
reserved for a structure that takes fewer than four words.
-/

set_option autoImplicit false

namespace TextIndex.Index

open Store (Frugal InOrder)

variable {text : SentinelText} {sa : List Nat} {width : Width} {mode : Mode} {ix : Index} {k : Kind}

/-! ## What is held, and what is charged -/

/-- The bytes of the structures that are held. -/
def heldBytes (ix : Index) : Nat := ((Kind.all.filterMap ix.get?).map PackedVector.heapBytes).sum

/-- The statistics tell what is held. -/
def Accounted (ix : Index) : Prop := ix.store.stats.current = ix.heldBytes

/-- The words that are reserved and not used. -/
def idleWords (ix : Index) : Nat := (Kind.all.map ix.store.idle).sum

/-- The bytes of a store are those of the structures in its index. -/
theorem heapBytes_eq_heldBytes (ix : Index) : ix.store.heapBytes = ix.heldBytes := by
  have hsum : ∀ kinds : List Kind, (kinds.map fun k => (ix.store.slot k).heapBytes).sum =
      ((kinds.filterMap ix.get?).map PackedVector.heapBytes).sum := by
    intro kinds
    induction kinds with
    | nil => rfl
    | cons k kinds ih =>
      rw [List.map_cons, List.sum_cons, ih]
      cases hk : ix.get? k with
      | none => rw [List.filterMap_cons_none hk, Store.heapBytes_of_empty hk, Nat.zero_add]
      | some v =>
        rw [List.filterMap_cons_some hk, List.map_cons, List.sum_cons, Store.heapBytes_of_there hk]
        rfl
  rw [Store.heapBytes_eq_sum]
  exact hsum Kind.all

/-- How the statistics of a copy stand to what it holds. -/
structure ChargedForIdle (ix copied : Index) : Prop where
  /-- The statistics are those of the original, … -/
  stats_eq : copied.store.stats = ix.store.stats
  /-- … and exceed what the copy holds by the words that are idle in the original. -/
  current_eq : copied.store.stats.current = copied.heldBytes + 8 * ix.idleWords
  /-- So they are right exactly when each structure of the original reserves what it uses. -/
  accounted_iff : copied.Accounted ↔ ∀ k v, ix.get? k = some v → v.buffer.capacity = v.buffer.size
  /-- A structure that does not is of a kind that is filled into zeros, and takes fewer than four words. -/
  used_or_four : ∀ k v, ix.get? k = some v → v.buffer.capacity = v.buffer.size ∨
    k.roomy = true ∧ v.buffer.capacity = 4 ∧ v.buffer.size < 4

/-- A new index is in order, and nothing is reserved. -/
theorem frugal_new (text : SentinelText) (sa : List Nat) (width : Width) (mode : Mode) :
    InOrder text sa width mode (.new text width mode) ∧ Frugal text (.new text width mode) := by
  have hempty := get?_new text width mode
  refine ⟨Store.inOrder_of_bare ⟨(sound_new text sa width mode).setup, hempty⟩
    (Store.booked_new text width mode), fun k v hv => ?_⟩
  cases (hempty k).symm.trans hv

/-- The calls of a client leave an index in order and frugal. -/
theorem frugal_afterAll (hn : Measurable text.size) (hsa : Sorts (SuffixArray.codes text.bytes) sa)
    (h : InOrder text sa width mode ix.store ∧ Frugal text ix.store) (calls : List Call) :
    InOrder text sa width mode (ix.afterAll calls).store ∧ Frugal text (ix.afterAll calls).store := by
  apply afterAll_keeps (P := fun s => InOrder text sa width mode s ∧ Frugal text s) _ _ _ h
  · exact fun call s hs => ⟨hs.1.after hn hsa call, hs.2.after hn hsa hs.1 call⟩
  · exact fun s hs => ⟨hs.1.beginRun, hs.2.beginRun⟩
  · exact fun s hs => ⟨hs.1.resetPeak, hs.2⟩

/-- A copy is charged for the words that are idle in the original. -/
theorem chargedForIdle_copy (hn : Measurable text.size) (h : InOrder text sa width mode ix.store)
    (hfrugal : Frugal text ix.store) : ChargedForIdle ix ix.copy := by
  have hcurrent : ix.copy.store.stats.current = ix.copy.heldBytes + 8 * ix.idleWords :=
    calc ix.store.stats.current
        = ix.store.heapBytes := h.booked.current_eq
      _ = ix.store.copy.heapBytes + 8 * ix.idleWords := (Store.heapBytes_copy ix.store).symm
      _ = ix.copy.heldBytes + 8 * ix.idleWords :=
        congrArg (· + 8 * ix.idleWords) (heapBytes_eq_heldBytes ix.copy)
  refine ⟨rfl, hcurrent, ?_, fun k v hv => hfrugal.used_or_four hn h hv⟩
  have hzero : ix.copy.Accounted ↔ ix.idleWords = 0 := by
    unfold Accounted
    omega
  exact hzero.trans (Store.sum_idle_eq_zero_iff ix.store)

/-- Whatever has been asked of an index, and whether it was carried out or not: a copy is charged for what it
holds and for the words that are idle in the original. It is charged rightly exactly when there are none, in
particular when no structure takes fewer than four words. The storage of a structure is measured with 64-bit
arithmetic, which is exact for every text that fits into memory. -/
theorem copy_charged_for_idle {bytes : Array UInt8} {config : Config} {ix : Index}
    (hn : Measurable (bytes.size + 1)) (hnew : Index.new bytes config = .ok ix) (calls : List Call) :
    ChargedForIdle (ix.afterAll calls) (ix.afterAll calls).copy := by
  obtain ⟨width, text, sa, -, hsize, hsa, rfl⟩ := new_sorted hnew
  rw [← hsize] at hn
  obtain ⟨hend, hfrugal⟩ := frugal_afterAll hn hsa (frugal_new text sa width config.mode) calls
  exact chargedForIdle_copy hn hend hfrugal

/-- Over the bytes 98 and 97, with entries of a byte. The permuted prefix array takes over the storage of
the phi array, of whose four words it uses one. -/
theorem copy_charged_for_idle_over_pair :
    let text : SentinelText := ⟨#[98, 97], by simp⟩
    let ix : Index := ⟨.new text .byte .plain⟩
    let held := ix.afterAll [.construct [.plcp], .require .suffixArray, .compress .phi]
    held.idleWords = 3 ∧ ChargedForIdle held held.copy := by
  intro text ix held
  have hn : Measurable (text.body.size + 1) := (by decide : 3 * 64 < UInt64.size)
  have hnew := new_of_text text .byte .plain
  exact ⟨by decide +kernel, copy_charged_for_idle hn hnew _⟩

/-- There the phi array takes one word of four, and its copy reserves no more; but the copy of the index is
charged for all four. -/
theorem copy_of_phi_unaccounted :
    let ix : Index := ⟨.new ⟨#[98, 97], by simp⟩ .byte .plain⟩
    let copied := (ix.afterAll [.construct [.phi]]).copy
    copied.heldBytes = 8 ∧ copied.store.stats.current = 32 ∧ ¬ copied.Accounted := by
  intro ix copied
  have hheld : copied.heldBytes = 8 := by decide +kernel
  have hcurrent : copied.store.stats.current = 32 := by decide +kernel
  refine ⟨hheld, hcurrent, fun haccounted => ?_⟩
  have hequal : copied.store.stats.current = copied.heldBytes := haccounted
  omega

end TextIndex.Index
