import TextIndex.Proofs.Index.Peak
import TextIndex.Proofs.Store.Lighter

/-!
# Compression saves memory

One construct on a new index, in each of the three modes: no mode needs more memory than the plain one, neither
at the end nor at any time before, and the delayed one ends with no more than the compressed one
(`memory_by_mode`).

* All modes plan alike, so the stores of two modes receive the same calls, but for what these say about
  compression; and the one that is told to compress is below the plain one all the way (`below_plain`).
* At the end of a run in delayed mode everything has been compressed in place and has no word to spare
  (`end_of_delayed`). In compressed mode some structures are filled into zeros and reserve four words even if
  they need fewer.

On the way the delayed mode may well need more than the compressed one, because it builds at full width.
-/

set_option autoImplicit false

namespace TextIndex.Index

open Store (Below InOrder Snug manager)

variable {text : SentinelText} {sa : List Nat} {width : Width} {mode : Mode} {kinds : List Kind}
  {schedule : Schedule Kind} {t : Index}

/-- New indexes over the same bytes differ in their mode only. -/
theorem new_modes {bytes : Array UInt8} {fullWidth : Nat} {ix : Mode → Index}
    (h : ∀ mode, Index.new bytes ⟨fullWidth, mode⟩ = .ok (ix mode)) :
    ∃ width text sa, width.bits = fullWidth ∧ text.size = bytes.size + 1 ∧
      Sorts (SuffixArray.codes text.bytes) sa ∧ ∀ mode, ix mode = ⟨.new text width mode⟩ := by
  obtain ⟨width, text, sa, hwidth, hsize, hsa, hplain⟩ := new_sorted (h .plain)
  refine ⟨width, text, sa, hwidth, hsize, hsa, fun mode => ?_⟩
  have hthis := h mode
  have hthat := h .plain
  rw [hplain] at hthat
  unfold Index.new at hthis hthat
  dsimp only at hthis hthat
  split at hthat
  · cases hthat
  · next hof =>
    rw [hof] at hthis
    dsimp only at hthis
    split at hthat
    · cases hthat
    · next htext =>
      rw [htext] at hthis
      cases hthat
      injection hthis with hthis
      exact hthis.symm

section Construct

variable (hn : Measurable text.size) (hsa : Sorts (SuffixArray.codes text.bytes) sa)
  (hroom : text.size ≤ width.bound)

/-- New indexes of one text hold the same, namely nothing, in any two modes. -/
theorem below_new (text : SentinelText) (sa : List Nat) (width : Width) (mode mode' : Mode) :
    Below text sa width mode mode' (Store.new text width mode).beginRun
      (Store.new text width mode').beginRun where
  inOrder := (occupied_new text sa width mode).inOrder
  inOrder' := (occupied_new text sa width mode').inOrder
  shared_iff k := by rw [Store.shared_beginRun, Store.shared_beginRun]
  lighter := Store.lighter_of_empty (bare_new text sa width mode).empty
    (bare_new text sa width mode').empty
  peak_le := by rw [stats_new, stats_new]

include hn hsa hroom

/-- A construct in any mode stays below the same construct in plain mode. -/
theorem below_plain {schedule' : Schedule Kind} {t' : Index}
    (h : construct kinds ⟨.new text width mode⟩ = .ok schedule t)
    (h' : construct kinds ⟨.new text width .plain⟩ = .ok schedule' t') :
    Below text sa width mode .plain t.store t'.store := by
  obtain ⟨_, _, r, hok, hr, -, hcalls, ht⟩ := construct_recorded hn hsa hroom mode kinds
  obtain ⟨_, _, r', hok', hr', -, hcalls', ht'⟩ := construct_recorded hn hsa hroom .plain kinds
  rw [h] at hok
  rw [h'] at hok'
  cases hok
  cases hok'
  obtain ⟨_, r'', hr'', hevents⟩ := Recorder.plain_run hr
  rw [hr'] at hr''
  cases hr''
  rw [hevents] at hcalls' ht'
  rw [ht, ht']
  exact (below_new text sa width mode .plain).afterAll hn hsa hcalls hcalls'

/-- After a construct in delayed mode every structure has its least width and no word to spare. -/
theorem end_of_delayed (h : construct kinds ⟨.new text width .delayed⟩ = .ok schedule t) {k : Kind}
    {v : PackedVector} (hv : t.get? k = some v) :
    Store.Made text sa true k v ∧ v.buffer.capacity = v.width.wordsFor text.size := by
  have hsettled := settled_new text sa width .delayed
  have hstart := (occupied_new text sa width .delayed).inOrder
  have htight := (construct_not_loose hn hsa (fun _ => hroom) hsettled.sound.setup (by decide)
    (hsettled.tight (by decide)) kinds).of_ok h
  obtain ⟨run, _, u, hpassage, rfl⟩ :=
    (construct_passes hn hsa (fun _ => hroom) hsettled.sound.setup kinds).of_ok h
  have hsnug : InOrder text sa width .delayed u.manager ∧ Snug u.manager := by
    refine hpassage.keeps (P := fun s => InOrder text sa width .delayed s ∧ Snug s) ?_
      (stocks_of_room hn hsa fun _ => hroom) ⟨hstart, ?_⟩
    · exact fun call s hcall hs => ⟨hs.1.after hn hsa call, hs.2.after hn hsa hs.1 hcall⟩
    · intro k v hv
      cases ((bare_new text sa width .delayed).empty k).symm.trans hv
  obtain ⟨hinOrder, hsnug⟩ := hsnug
  have hmark : (u.manager.flags k).compressed = true := by
    rw [← Bool.not_eq_false]
    exact fun hmark => htight k ⟨Option.isSome_of_eq_some hv, hmark⟩
  have hneeded := hsnug k v hv hmark
  rw [hinOrder.setup.good.text_eq] at hneeded
  refine ⟨⟨hinOrder.setup.good.holds hv, fun _ => ?_⟩, hneeded⟩
  obtain ⟨v', hv', hleast⟩ := hinOrder.booked.least k hmark
  cases hv'.symm.trans hv
  exact hleast

/-- A construct in delayed mode ends with no more bytes than one in compressed mode. -/
theorem delayed_le_compressed {schedule' : Schedule Kind} {t' : Index}
    (h : construct kinds ⟨.new text width .delayed⟩ = .ok schedule t)
    (h' : construct kinds ⟨.new text width .compressed⟩ = .ok schedule' t') :
    t.store.heapBytes ≤ t'.store.heapBytes := by
  obtain ⟨_, _, r', hok', hr', -, hcalls', ht'⟩ := construct_recorded hn hsa hroom .compressed kinds
  rw [h'] at hok'
  cases hok'
  have hinOrder' : InOrder text sa width .compressed t'.store := by
    rw [ht']
    exact (occupied_new text sa width .compressed).inOrder.afterAll hn hsa r'.events
  have hthere : ∀ k, (t.get? k).isSome ↔ (t'.get? k).isSome := by
    intro k
    have hsetup := (settled_new text sa width .delayed).sound.setup
    have hsetup' := (settled_new text sa width .compressed).sound.setup
    rw [((ends_construct_of_room hn hsa (fun _ => hroom) hsetup kinds).of_ok h).2.isSome_iff,
      ((ends_construct_of_room hn hsa (fun _ => hroom) hsetup' kinds).of_ok h').2.isSome_iff,
      get?_new, get?_new]
  apply Store.heapBytes_mono
  intro k v hv
  obtain ⟨v', hv'⟩ := Option.isSome_iff_exists.1 ((hthere k).1 (Option.isSome_of_eq_some hv))
  have hholds' := hinOrder'.setup.good.holds hv'
  obtain ⟨hmade, hneeded⟩ := end_of_delayed hn hsa hroom h hv
  exact ⟨v', hv', Store.capacity_le_of_needed hn hneeded (hinOrder'.tidied k v' hv') hholds'
    (Store.width_le_of_least hsa hmade hholds')⟩

end Construct

/-- What constructs of the same kinds use, one in each mode. -/
structure MemoryOrdered (used : Mode → MemoryStats) : Prop where
  current_delayed : (used .delayed).current ≤ (used .compressed).current
  current_compressed : (used .compressed).current ≤ (used .plain).current
  peak_delayed : (used .delayed).peak ≤ (used .plain).peak
  peak_compressed : (used .compressed).peak ≤ (used .plain).peak

/-- One construct of the same kinds on a new index for each mode, with room for every position: all of them
succeed. The delayed one ends with no more bytes than the compressed one, this one with no more than the
plain one, and neither of the two has ever held more than the plain one at its peak. The storage of a
structure is measured with 64-bit arithmetic, which is exact for every text that fits into memory. -/
theorem memory_by_mode {bytes : Array UInt8} {fullWidth : Nat} {ix : Mode → Index}
    (hn : Measurable (bytes.size + 1))
    (hnew : ∀ mode, Index.new bytes ⟨fullWidth, mode⟩ = .ok (ix mode))
    (hroom : bytes.size < 2 ^ fullWidth) (kinds : List Kind) :
    ∃ (schedule : Mode → Schedule Kind) (t : Mode → Index),
      (∀ mode, construct kinds (ix mode) = .ok (schedule mode) (t mode)) ∧
        MemoryOrdered fun mode => (t mode).store.stats := by
  obtain ⟨width, text, sa, hwidth, hsize, hsa, hix⟩ := new_modes hnew
  rw [← hsize] at hn
  have hroom := size_le_bound hwidth hsize hroom
  have hok : ∀ mode, ∃ schedule t, construct kinds ⟨.new text width mode⟩ = .ok schedule t := by
    intro mode
    obtain ⟨schedule, t, -, hok, -⟩ := construct_recorded hn hsa hroom mode kinds
    exact ⟨schedule, t, hok⟩
  choose schedule t hok using hok
  have hbelow : ∀ mode, Below text sa width mode .plain (t mode).store (t .plain).store := fun mode =>
    below_plain hn hsa hroom (hok mode) (hok .plain)
  refine ⟨schedule, t, fun mode => by rw [hix]; exact hok mode, ?_⟩
  exact {
    current_delayed := by
      rw [(hbelow .delayed).inOrder.booked.current_eq, (hbelow .compressed).inOrder.booked.current_eq]
      exact delayed_le_compressed hn hsa hroom (hok .delayed) (hok .compressed)
    current_compressed := (hbelow .compressed).current_le
    peak_delayed := (hbelow .delayed).peak_le
    peak_compressed := (hbelow .compressed).peak_le }

/-- Over the bytes 98 and 97, with entries of a byte, for the longest common prefixes and the phi array.
Only what is compressed after it was built gives back the storage that it does not use. -/
theorem memory_by_mode_over_pair :
    let text : SentinelText := ⟨#[98, 97], by simp⟩
    ∃ (schedule : Mode → Schedule Kind) (t : Mode → Index),
      (∀ mode, construct [.lcp, .phi] ⟨.new text .byte mode⟩ = .ok (schedule mode) (t mode)) ∧
        MemoryOrdered (fun mode => (t mode).store.stats) ∧
        ∀ mode, (t mode).store.stats.current = if mode = .delayed then 16 else 64 := by
  intro text
  have hn : Measurable (text.body.size + 1) := (by decide : 3 * 64 < UInt64.size)
  have hroom : text.body.size < 2 ^ Width.byte.bits := by decide
  obtain ⟨schedule, t, hok, hordered⟩ := memory_by_mode hn (new_of_text text .byte) hroom [.lcp, .phi]
  refine ⟨schedule, t, hok, hordered, fun mode => ?_⟩
  exact Ends.of_ok (Q := fun _ u => u.store.stats.current = if mode = .delayed then 16 else 64)
    (F := fun _ _ => False) (by cases mode <;> decide +kernel) (hok mode)

end TextIndex.Index
