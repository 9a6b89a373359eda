import TextIndex.Proofs.Index.MemoryByMode
import TextIndex.Proofs.Plan.Orderly
import TextIndex.Proofs.Store.Zeroed

/-!
# Compressing at once or late

One construct on a new index in compressed mode, and one in delayed mode. Compressing at once ought to need
no more memory than compressing late, and to end with as much. That is so unless a phi array or a prefix array
is requested that takes fewer words than zeros reserve: compressed late it gives back the words that it does
not need, and built compressed it keeps them (`compressed_against_delayed`). Between the two ends this makes
a difference of at most as many words.

Both constructs make the calls of the plain one, so the same structures are there after corresponding calls
(`there_eq_of_calls`), and they can be compared one by one.
-/

set_option autoImplicit false

namespace TextIndex

/-- A call flagged as compressing is, compression left out, the call that it was flagged from. -/
theorem Event.uncompressed_flagged {K : Type} (call : Event K) :
    (call.uncompressed.map Event.flagged).bind Event.uncompressed = call.uncompressed := by
  cases call <;> rfl

/-- Calls that are carried out up to some point. -/
theorem Manager.CarriesOut.of_prefix {K E S : Type} {m : Manager K E S} {s : S}
    {calls before : List (Event K)} (h : m.CarriesOut s calls) (hbefore : before <+: calls) :
    m.CarriesOut s before := fun _ _ hearlier => h _ _ (hearlier.trans hbefore)

/-- Nothing is built from the inverse. -/
theorem Kind.inverse_not_required (k : Kind) : .inverse ∉ Kind.registry.requirements k := by
  cases k <;> decide

/-- Nothing requires the inverse, so it is built only if asked for. -/
theorem Kind.mem_of_reachable_inverse {kinds : List Kind} (h : Kind.registry.Reachable kinds .inverse) :
    .inverse ∈ kinds := by
  obtain ⟨k, hk, hpath⟩ := h
  rcases hpath.cases_tail with heq | ⟨j, -, hj⟩
  · rwa [heq]
  · exact absurd hj (Kind.inverse_not_required j)

namespace Index

open Recorder (Orderly)
open Store (Ample InOrder Made Paired Trim manager)

variable {text : SentinelText} {sa : List Nat} {width : Width} {mode : Mode} {kinds : List Kind}
  {calls before : List (Event Kind)}

/-- The store of a new index when a run begins. -/
abbrev beginning (text : SentinelText) (width : Width) (mode : Mode) : Store :=
  (Store.new text width mode).beginRun

section Calls

variable (hn : Measurable text.size) (hsa : Sorts (SuffixArray.codes text.bytes) sa)

include hn hsa

/-- In compressed mode. -/
theorem trim_of_calls (h : Orderly Kind.registry kinds .compressed calls)
    (hcalls : manager.CarriesOut (beginning text width .compressed) calls) (hbefore : before <+: calls) :
    InOrder text sa width .compressed (manager.afterAll (beginning text width .compressed) before) ∧
      Trim text (manager.afterAll (beginning text width .compressed) before) := by
  have hempty := (bare_new text sa width .compressed).empty
  have hstep := hcalls.induction (P := fun _ s => InOrder text sa width .compressed s ∧
    Trim text s ∧ (.inverse ∈ kinds → Paired s)) ⟨?_, ⟨?_, ?_⟩, ?_⟩ ?_ hbefore
  · exact ⟨hstep.1, hstep.2.1⟩
  · exact (occupied_new text sa width .compressed).inOrder
  · intro k hloose
    have hthere := hloose.1
    rw [hempty] at hthere
    cases hthere
  · intro k v hv
    cases (hempty k).symm.trans hv
  · intro _ hthere
    rw [hempty] at hthere
    cases hthere
  · rintro before call hprefix hok ⟨hs, htrim, hpaired⟩
    have hmem : call ∈ calls := hprefix.subset (by simp)
    have hgood := hs.setup.good
    refine ⟨?_, htrim.after hn hsa hs (h.inMode call hmem) hok ?_, fun hinverse => ?_⟩
    · rw [Manager.afterAll_snoc]
      exact hs.after hn hsa call
    · rintro compressed rfl
      have hinverse := Kind.mem_of_reachable_inverse (h.built _ _ hmem)
      exact (hpaired hinverse).there_of_construct hgood hok
    · refine (hpaired hinverse).carried (hgood.carried hn hsa hs.tidied hok) ?_
      rintro intermediate rfl
      exact h.kept _ hinverse intermediate hmem

/-- In delayed mode. -/
theorem ample_of_calls (h : Orderly Kind.registry kinds .delayed calls)
    (hcalls : manager.CarriesOut (beginning text width .delayed) calls) (hbefore : before <+: calls) :
    InOrder text sa width .delayed (manager.afterAll (beginning text width .delayed) before) ∧
      Ample kinds (manager.afterAll (beginning text width .delayed) before) := by
  refine hcalls.induction (P := fun _ s => InOrder text sa width .delayed s ∧ Ample kinds s)
    ⟨(occupied_new text sa width .delayed).inOrder, ?_⟩ ?_ hbefore
  · intro k v _ _ hv
    cases ((bare_new text sa width .delayed).empty k).symm.trans hv
  · rintro before call hprefix hok ⟨hs, hample⟩
    have hmem : call ∈ calls := hprefix.subset (by simp)
    constructor
    · rw [Manager.afterAll_snoc]
      exact hs.after hn hsa call
    · refine hample.carried (hs.setup.good.carried hn hsa hs.tidied hok) (h.inMode call hmem) ?_
      rintro k rfl
      exact h.compressed k hmem

/-- What is held after some calls is not more than the peak after more of them. -/
theorem heapBytes_le_peak {s : Store} (h : InOrder text sa width mode s) (hbefore : before <+: calls) :
    (manager.afterAll s before).heapBytes ≤ (manager.afterAll s calls).stats.peak := by
  induction calls using List.reverseRecOn with
  | nil =>
    rw [List.prefix_nil.1 hbefore]
    show s.heapBytes ≤ s.stats.peak
    rw [← h.booked.current_eq]
    exact h.booked.current_le
  | append_singleton calls call ih =>
    rcases List.prefix_concat_iff.1 hbefore with rfl | hbefore
    · have hbooked := (h.afterAll hn hsa (calls ++ [call])).booked
      rw [← hbooked.current_eq]
      exact hbooked.current_le
    · refine (ih hbefore).trans ?_
      have hcalls := h.afterAll hn hsa calls
      rw [Manager.afterAll_snoc, (hcalls.setup.good.after_posts hn hsa hcalls.booked call).peak_eq]
      exact Nat.le_max_left ..

variable (hroom : text.size ≤ width.bound)

include hroom

/-- The structures that are there in a mode after some calls are those of the plain mode. -/
theorem there_eq_of_calls {schedule : Schedule Kind} {r : Recorder Kind}
    (hr : constructAll Kind.registry Recorder.manager kinds mode (.new none) = .ok schedule r)
    (hcalls : manager.CarriesOut (beginning text width mode) r.events) (hbefore : before <+: r.events)
    (k : Kind) : ((manager.afterAll (beginning text width mode) before).get? k).isSome =
      ((manager.afterAll (beginning text width .plain)
        (before.filterMap Event.uncompressed)).get? k).isSome := by
  obtain ⟨_, _, p, -, hp, -, hplain, -⟩ := construct_recorded hn hsa hroom .plain kinds
  obtain ⟨_, p', hp', hevents⟩ := Recorder.plain_run hr
  cases hp.symm.trans hp'
  rw [hevents] at hplain
  exact ((below_new text sa width mode .plain).afterAll hn hsa (hcalls.of_prefix hbefore)
    (hplain.of_prefix (hbefore.filterMap _))).lighter.there_eq k

/-- To every moment of a construct in compressed mode belongs one in delayed mode at which the same
structures are there. -/
theorem exists_moment {schedule schedule' : Schedule Kind} {r r' : Recorder Kind}
    (hr : constructAll Kind.registry Recorder.manager kinds .compressed (.new none) = .ok schedule r)
    (hr' : constructAll Kind.registry Recorder.manager kinds .delayed (.new none) = .ok schedule' r')
    (hcalls : manager.CarriesOut (beginning text width .compressed) r.events)
    (hcalls' : manager.CarriesOut (beginning text width .delayed) r'.events)
    (hbefore : before <+: r.events) :
    ∃ before', before' <+: r'.events ∧ ∀ k,
      ((manager.afterAll (beginning text width .compressed) before).get? k).isSome =
        ((manager.afterAll (beginning text width .delayed) before').get? k).isSome := by
  have hmoment := hbefore
  rw [Recorder.compressed_run hr' hr] at hmoment
  obtain ⟨before', hbefore', rfl⟩ := List.prefix_filterMap_iff.1 hmoment
  have hsame : (before'.filterMap fun call => call.uncompressed.map Event.flagged).filterMap
      Event.uncompressed = before'.filterMap Event.uncompressed := by
    rw [List.filterMap_filterMap]
    exact List.filterMap_congr fun call _ => call.uncompressed_flagged
  refine ⟨before', hbefore', fun k => ?_⟩
  rw [there_eq_of_calls hn hsa hroom hr hcalls hbefore, hsame,
    there_eq_of_calls hn hsa hroom hr' hcalls' hbefore']

end Calls

/-! ## The ends -/

/-- The words by which a structure that is filled into zeros takes fewer than these reserve. -/
def spare (ix : Index) (k : Kind) : Nat :=
  if k.zeroed then (ix.get? k).elim 0 fun v => 4 - v.buffer.size else 0

/-- The same for all structures. -/
def spareWords (ix : Index) : Nat := (Kind.all.map ix.spare).sum

/-- Of the given kinds those that are filled into zeros take no fewer words than these reserve. -/
def TakesFour (ix : Index) (kinds : List Kind) : Prop :=
  ∀ k ∈ kinds, k.zeroed = true → ∃ v, ix.get? k = some v ∧ 4 ≤ v.buffer.size

section Construct

variable (hn : Measurable text.size) (hsa : Sorts (SuffixArray.codes text.bytes) sa)
  (hroom : text.size ≤ width.bound) {schedule schedule' : Schedule Kind} {t t' : Index}

include hn hsa hroom

/-- After a construct on a new index what was asked for is there, and nothing else. -/
theorem isSome_iff_of_new (h : construct kinds ⟨.new text width mode⟩ = .ok schedule t) (k : Kind) :
    (t.get? k).isSome ↔ k ∈ kinds := by
  have hsetup := (settled_new text sa width mode).sound.setup
  rw [((ends_construct_of_room hn hsa (fun _ => hroom) hsetup kinds).of_ok h).2.isSome_iff, get?_new]
  simp

/-- What is there after a construct in delayed mode uses all words that it reserves. -/
theorem size_of_delayed (h : construct kinds ⟨.new text width .delayed⟩ = .ok schedule t) {k : Kind}
    {v : PackedVector} (hv : t.get? k = some v) :
    Made text sa true k v ∧ v.buffer.capacity = v.width.wordsFor text.size ∧
      v.buffer.size = v.width.wordsFor text.size := by
  obtain ⟨hmade, hneeded⟩ := end_of_delayed hn hsa hroom h hv
  refine ⟨hmade, hneeded, ?_⟩
  obtain ⟨_, _, r, hok, -, -, -, ht⟩ := construct_recorded hn hsa hroom .delayed kinds
  cases h.symm.trans hok
  have hinOrder : InOrder text sa width .delayed t.store := by
    rw [ht]
    exact (occupied_new text sa width .delayed).inOrder.afterAll hn hsa r.events
  have hsize := (hinOrder.tidied k v hv).size_eq
  have hlength := hinOrder.setup.good.length_eq hv
  rw [hinOrder.setup.good.text_eq] at hlength
  rw [Width.wordsFor_eq (hn.measures _), ← hlength]
  exact hsize

/-- The spare words make up for what a requested structure lacks. -/
theorem four_le_add_spare (h : construct kinds ⟨.new text width .delayed⟩ = .ok schedule t) {k : Kind}
    (hk : k ∈ kinds) (hzeroed : k.zeroed = true) {v : PackedVector} (hv : Made text sa true k v) :
    4 ≤ v.width.wordsFor text.size + t.spare k := by
  obtain ⟨u, hu⟩ := Option.isSome_iff_exists.1 ((isSome_iff_of_new hn hsa hroom h k).2 hk)
  obtain ⟨hmade, -, hsize⟩ := size_of_delayed hn hsa hroom h hu
  have hspare : t.spare k = 4 - u.buffer.size := by
    unfold spare
    rw [if_pos hzeroed, hu]
    rfl
  rw [hspare, hsize, Store.width_eq_of_least hsa hv hmade]
  omega

/-- At any moment of a construct in compressed mode no more is held than at the corresponding moment in
delayed mode, but for the spare words of the latter. -/
theorem heapBytes_le_of_calls (h : construct kinds ⟨.new text width .delayed⟩ = .ok schedule t)
    {s s' : Store} (hs : InOrder text sa width .compressed s) (htrim : Trim text s)
    (hs' : InOrder text sa width .delayed s') (hample : Ample kinds s')
    (hthere : ∀ k, (s.get? k).isSome = (s'.get? k).isSome) :
    s.heapBytes ≤ s'.heapBytes + 8 * t.spareWords := by
  apply Store.heapBytes_le_add
  intro k v hv
  obtain ⟨v', hv'⟩ := Option.isSome_iff_exists.1 (hthere k ▸ Option.isSome_of_eq_some hv)
  refine ⟨v', hv', htrim.capacity_le hn hsa hs hs' hv hv' fun hzeroed => ?_⟩
  by_cases hk : k ∈ kinds
  · exact Or.inr (four_le_add_spare hn hsa hroom h hk hzeroed (htrim.made hs hv))
  · exact Or.inl (Nat.le_add_right_of_le (hample k v' hzeroed hk hv'))

/-- In the end exactly the spare words are held besides. -/
theorem heapBytes_eq_of_ends (h : construct kinds ⟨.new text width .delayed⟩ = .ok schedule t)
    (h' : construct kinds ⟨.new text width .compressed⟩ = .ok schedule' t')
    (hs : InOrder text sa width .compressed t'.store) (htrim : Trim text t'.store) :
    t'.store.heapBytes = t.store.heapBytes + 8 * t.spareWords := by
  unfold spareWords
  rw [Store.heapBytes_add, Store.heapBytes_eq_sum]
  congr 1
  refine List.map_congr_left fun k _ => ?_
  by_cases hk : k ∈ kinds
  · obtain ⟨v, hv⟩ := Option.isSome_iff_exists.1 ((isSome_iff_of_new hn hsa hroom h k).2 hk)
    obtain ⟨v', hv'⟩ := Option.isSome_iff_exists.1 ((isSome_iff_of_new hn hsa hroom h' k).2 hk)
    obtain ⟨hmade, hneeded, hsize⟩ := size_of_delayed hn hsa hroom h hv
    have hwidth := Store.width_eq_of_least hsa (htrim.made hs hv') hmade
    rw [Store.heapBytes_of_there hv, Store.heapBytes_of_there hv', htrim.capacity_eq k v' hv', hwidth,
      hneeded]
    unfold Store.leastRoom spare
    rw [hv]
    split
    · show _ = _ + 8 * (4 - v.buffer.size)
      omega
    · rfl
  · have hnone := Option.not_isSome_iff_eq_none.1 (mt (isSome_iff_of_new hn hsa hroom h k).1 hk)
    have hnone' := Option.not_isSome_iff_eq_none.1 (mt (isSome_iff_of_new hn hsa hroom h' k).1 hk)
    rw [Store.heapBytes_of_empty hnone, Store.heapBytes_of_empty hnone']
    unfold spare
    rw [hnone]
    split <;> rfl

/-- No words are to spare exactly if no requested structure that is filled into zeros takes fewer than
four. -/
theorem spareWords_eq_zero_iff (h : construct kinds ⟨.new text width .delayed⟩ = .ok schedule t) :
    t.spareWords = 0 ↔ t.TakesFour kinds := by
  unfold spareWords
  rw [List.sum_eq_zero_iff, List.forall_mem_map]
  constructor
  · intro hnone k hk hzeroed
    obtain ⟨v, hv⟩ := Option.isSome_iff_exists.1 ((isSome_iff_of_new hn hsa hroom h k).2 hk)
    refine ⟨v, hv, ?_⟩
    have hspare := hnone k (Kind.mem_all k)
    unfold spare at hspare
    rw [if_pos hzeroed, hv] at hspare
    exact Nat.sub_eq_zero_iff_le.1 hspare
  · intro hfour k _
    unfold spare
    split
    · next hzeroed =>
      cases hv : t.get? k with
      | none => rfl
      | some v =>
        have hk := (isSome_iff_of_new hn hsa hroom h k).1 (Option.isSome_of_eq_some hv)
        obtain ⟨u, hu, hle⟩ := hfour k hk hzeroed
        cases hv.symm.trans hu
        exact Nat.sub_eq_zero_of_le hle
    · rfl

end Construct

/-- What a construct in compressed mode uses, compared with one in delayed mode. -/
structure Compares (kinds : List Kind) (compressed delayed : Index) : Prop where
  current_eq : compressed.store.stats.current = delayed.store.stats.current + 8 * delayed.spareWords
  peak_le : compressed.store.stats.peak ≤ delayed.store.stats.peak + 8 * delayed.spareWords
  spare_iff : delayed.spareWords = 0 ↔ delayed.TakesFour kinds

/-- One construct of the same kinds on a new index in compressed mode, and one in delayed mode, with room for
every position: both succeed. The compressed one ends with the bytes of the delayed one and with the words by
which a requested phi array or prefix array takes fewer than four, and its peak exceeds that of the delayed
one by no more than these. So it needs no more memory, and ends with the same, if none takes fewer. The
storage of a structure is measured with 64-bit arithmetic, which is exact for every text that fits into
memory. -/
theorem compressed_against_delayed {bytes : Array UInt8} {fullWidth : Nat} {ix : Mode → Index}
    (hn : Measurable (bytes.size + 1))
    (hnew : ∀ mode, Index.new bytes ⟨fullWidth, mode⟩ = .ok (ix mode))
    (hroom : bytes.size < 2 ^ fullWidth) (kinds : List Kind) :
    ∃ schedule t schedule' t', construct kinds (ix .compressed) = .ok schedule t ∧
      construct kinds (ix .delayed) = .ok schedule' t' ∧ Compares kinds t t' := by
  obtain ⟨width, text, sa, hwidth, hsize, hsa, hix⟩ := new_modes hnew
  rw [← hsize] at hn
  have hroom := size_le_bound hwidth hsize hroom
  obtain ⟨schedule, t, r, hok, hr, -, hcalls, ht⟩ :=
    construct_recorded hn hsa hroom .compressed kinds
  obtain ⟨schedule', t', r', hok', hr', -, hcalls', ht'⟩ :=
    construct_recorded hn hsa hroom .delayed kinds
  refine ⟨schedule, t, schedule', t', by rw [hix]; exact hok, by rw [hix]; exact hok', ?_⟩
  have htrim {before : List (Event Kind)} (hbefore : before <+: r.events) :=
    trim_of_calls hn hsa (Recorder.orderly_of_run hr) hcalls hbefore
  have hample {before : List (Event Kind)} (hbefore : before <+: r'.events) :=
    ample_of_calls hn hsa (Recorder.orderly_of_run hr') hcalls' hbefore
  have hend := htrim List.prefix_rfl
  have hend' := hample List.prefix_rfl
  rw [← ht] at hend
  rw [← ht'] at hend'
  refine ⟨?_, ?_, spareWords_eq_zero_iff hn hsa hroom hok'⟩
  · rw [hend.1.booked.current_eq, hend'.1.booked.current_eq]
    exact heapBytes_eq_of_ends hn hsa hroom hok' hok hend.1 hend.2
  · rw [ht]
    apply (occupied_new text sa width .compressed).inOrder.peak_le hn hsa
    · rw [stats_new]
      exact Nat.zero_le _
    intro before hbefore
    obtain ⟨before', hbefore', hthere⟩ := exists_moment hn hsa hroom hr hr' hcalls hcalls' hbefore
    have hheld := heapBytes_le_of_calls hn hsa hroom hok' (htrim hbefore).1 (htrim hbefore).2
      (hample hbefore').1 (hample hbefore').2 hthere
    have hpeak := heapBytes_le_peak hn hsa (occupied_new text sa width .delayed).inOrder hbefore'
    rw [← ht'] at hpeak
    exact hheld.trans (Nat.add_le_add_right hpeak _)

/-- Over the bytes 98 and 97, with entries of a byte. -/
theorem compressed_against_delayed_over_pair :
    let text : SentinelText := ⟨#[98, 97], by simp⟩
    ∃ schedule t schedule' t',
      construct [.lcp, .bwt] ⟨.new text .byte .compressed⟩ = .ok schedule t ∧
        construct [.lcp, .bwt] ⟨.new text .byte .delayed⟩ = .ok schedule' t' ∧
          Compares [.lcp, .bwt] t t' := by
  intro text
  have hn : Measurable (text.body.size + 1) := (by decide : 3 * 64 < UInt64.size)
  have hroom : text.body.size < 2 ^ Width.byte.bits := by decide
  exact compressed_against_delayed hn (new_of_text text .byte) hroom [.lcp, .bwt]

/-- Over no bytes at all, the phi array and the prefix array take a word each. Built compressed they keep
four each, and the construct has held more than the one in delayed mode ever does. -/
theorem compressed_exceeds_delayed_over_nothing :
    let text : SentinelText := ⟨#[], by simp⟩
    ∃ schedule t schedule' t',
      construct [.phi, .lcp] ⟨.new text .byte .compressed⟩ = .ok schedule t ∧
        construct [.phi, .lcp] ⟨.new text .byte .delayed⟩ = .ok schedule' t' ∧
          t.store.stats = ⟨64, 80⟩ ∧ t'.store.stats = ⟨16, 56⟩ := by
  intro text
  have hn : Measurable text.size := (by decide : 1 * 64 < UInt64.size)
  have hpos : 0 < text.bytes.size := by decide
  have hsa := (SuffixArray.correct_rankSuffixes hpos).sorts
  have hroom : text.size ≤ Width.byte.bound := by decide
  obtain ⟨schedule, t, _, hok, -⟩ := construct_recorded hn hsa hroom .compressed [.phi, .lcp]
  obtain ⟨schedule', t', _, hok', -⟩ := construct_recorded hn hsa hroom .delayed [.phi, .lcp]
  have hstats : (Manager.reached
      (construct [.phi, .lcp] ⟨.new text .byte .compressed⟩)).store.stats = ⟨64, 80⟩ := by
    decide +kernel
  have hstats' : (Manager.reached
      (construct [.phi, .lcp] ⟨.new text .byte .delayed⟩)).store.stats = ⟨16, 56⟩ := by
    decide +kernel
  rw [Manager.reached_of_ok hok] at hstats
  rw [Manager.reached_of_ok hok'] at hstats'
  exact ⟨schedule, t, schedule', t', hok, hok', hstats, hstats'⟩

end Index

end TextIndex
