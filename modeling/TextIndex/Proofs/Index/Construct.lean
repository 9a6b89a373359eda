import TextIndex.Index
import TextIndex.Proofs.Store.Supply

/-!
# An index keeps what it holds

A client calls an index in any order, and a call that fails leaves the index that it has reached. What
such an index holds decides what a further `construct` does (`construct_keeps_and_adds`).

* Held structures that the run would touch are requested with the others. Asking for them touches
  nothing else, because the only byproduct is the inverse and it leads back to the suffix array that it
  came with (`byproductsWithin_registry`). So the run is one over a stock, and loses nothing.
* Only the first structure can be refused. If the width is too narrow for the last position of the text,
  and nothing is built compressed, then every run that is asked for anything stops at the suffix array:
  nothing is ever held (`Sound`).
-/

set_option autoImplicit false

namespace TextIndex

/-! ## The registry of the six kinds -/

/-- Every kind of structure is registered. -/
theorem contains_registry (k : Kind) : Kind.registry.Contains k := by
  cases k <;> decide

/-- Every request is accepted. -/
theorem exists_start (requested : List Kind) (mode : Mode) :
    ∃ run, Run.start Kind.registry requested mode = .ok run := by
  have hfind : requested.find? (fun k => ¬ Kind.registry.Contains k) = none := by
    rw [List.find?_eq_none]
    intro k _
    simpa using contains_registry k
  have hvalid : Kind.registry.validateRequest requested = .ok () := by
    unfold Registry.validateRequest
    rw [hfind]
    decide
  unfold Run.start
  rw [hvalid]
  exact ⟨_, rfl⟩

/-- The inverse requires the suffix array, which it appears with. -/
theorem byproductsWithin_registry : Kind.registry.ByproductsWithin where
  requirements k b hb q hq := by
    cases k
    case suffixArray =>
      obtain rfl : b = .inverse := List.mem_singleton.1 hb
      exact Registry.reachable_of_mem hq
    all_goals exact absurd hb List.not_mem_nil
  byproducts k b hb c hc := by
    cases k
    case suffixArray =>
      obtain rfl : b = .inverse := List.mem_singleton.1 hb
      exact absurd hc List.not_mem_nil
    all_goals exact absurd hb List.not_mem_nil

namespace Index

open Store (Setup Bare)

/-! ## Calls of an index -/

/-- What a client asks of an index. -/
inductive Call where
  | construct (kinds : List Kind)
  | require (k : Kind)
  | take (k : Kind)
  | compress (k : Kind)
  | resetPeak

/-- The index after a call, carried out or refused. -/
def after (ix : Index) : Call → Index
  | .construct kinds => Manager.reached (construct kinds ix)
  | .require k => Manager.reached (require k ix)
  | .take k => (ix.take k).2
  | .compress k => Manager.reached (compress k ix)
  | .resetPeak => ix.resetPeak

/-- The index after calls in a row. -/
def afterAll (ix : Index) (calls : List Call) : Index := calls.foldl after ix

variable {text : SentinelText} {sa : List Nat} {width : Width} {mode : Mode} {ix : Index}
  {kinds : List Kind} {k : Kind}

/-! ## The run of a construct -/

/-- What a run is asked for besides is what it touches and is held already. -/
theorem mem_heldInRun : k ∈ ix.heldInRun kinds ↔
    k ∈ Kind.registry.touched kinds ∧ ix.store.isLive k = true ∧ k ∉ kinds := by
  unfold heldInRun
  simp [Kind.mem_all]

/-- What counts as held is there. -/
theorem isSome_of_mem_heldInRun (h : Setup text sa width mode ix.store) (hk : k ∈ ix.heldInRun kinds) :
    (ix.get? k).isSome := (h.isLive_eq k).symm.trans (mem_heldInRun.1 hk).2.1

/-- Building kinds ends as the planner does over the store. -/
theorem ends_construct {Q : Schedule Kind → Index → Prop} {F : ConstructError → Index → Prop} :
    Ends (construct kinds) ix Q F ↔
      Ends (constructAll Kind.registry Store.manager (kinds ++ ix.heldInRun kinds) ix.store.mode)
        ix.store.beginRun (fun schedule s => Q schedule ⟨s⟩) fun e s => F e ⟨s⟩ := by
  unfold Ends construct
  dsimp only
  cases constructAll Kind.registry Store.manager (kinds ++ ix.heldInRun kinds) ix.store.mode
    ix.store.beginRun <;> exact Iff.rfl

section Construct

variable (hn : Measurable text.size)

include hn

/-- With room for every position the store refuses nothing that the planner asks of it. -/
theorem stocks_of_room (hsa : Sorts (SuffixArray.codes text.bytes) sa)
    (hroom : mode ≠ .compressed → text.size ≤ width.bound) :
    Store.manager.Stocks Kind.registry (decide (mode = .compressed)) (Setup text sa width mode)
      Store.get? fun s k => (s.flags k).shared = true :=
  Store.manager_stocks hn hsa fun hplain => hroom (of_decide_eq_false hplain)

/-- Where every position fits, a construct is a run over what is held. -/
theorem construct_passes (hsa : Sorts (SuffixArray.codes text.bytes) sa)
    (hroom : mode ≠ .compressed → text.size ≤ width.bound) (h : Setup text sa width mode ix.store)
    (kinds : List Kind) :
    Ends (construct kinds) ix (fun _ v => ∃ run t u,
      Run.Passage Store.manager Kind.registry mode (Setup text sa width mode) Store.get?
        (fun s k => (s.flags k).shared = true) (kinds ++ ix.heldInRun kinds) run ix.store.beginRun t u ∧
      v = ⟨u.manager⟩) fun _ _ => False := by
  obtain ⟨run, hstart⟩ := exists_start (kinds ++ ix.heldInRun kinds) mode
  obtain ⟨L⟩ := Registry.nonempty_layers_of_request (Run.start_ok hstart).1
  have hheld : ∀ k ∈ ix.heldInRun kinds, Kind.registry.Touches kinds k := fun k hk =>
    (Registry.mem_touched L).1 (mem_heldInRun.1 hk).1
  rw [ends_construct, h.mode_eq]
  refine (Run.run_passes (stocks_of_room hn hsa hroom) hstart h.beginRun ?_ ?_).mono ?_
    fun _ _ hF => hF
  · intro k
    rw [Store.shared_beginRun]
    decide
  · intro k hk htouched
    rw [Store.get?_beginRun, ← h.isLive_eq] at hk
    -- what the larger request touches the smaller one touches, so it was looked for among the held ones
    have htouched := htouched.of_append byproductsWithin_registry hheld
    by_cases hmem : k ∈ kinds
    · exact List.mem_append_left _ hmem
    · apply List.mem_append_right
      exact mem_heldInRun.2 ⟨(Registry.mem_touched L).2 htouched, hk, hmem⟩
  · rintro _ _ ⟨t, u, hpassage, rfl⟩
    exact ⟨run, t, u, hpassage, rfl⟩

/-- A run succeeds, and what was held stays. The held kinds that are requested with the given ones add
nothing. -/
theorem ends_construct_of_room (hsa : Sorts (SuffixArray.codes text.bytes) sa)
    (hroom : mode ≠ .compressed → text.size ≤ width.bound) (h : Setup text sa width mode ix.store)
    (kinds : List Kind) : Ends (construct kinds) ix (fun _ t => Setup text sa width mode t.store ∧
      Restocked kinds mode ix.get? t.get?) fun _ _ => False := by
  refine (construct_passes hn hsa hroom h kinds).mono ?_ fun _ _ hF => hF
  rintro _ _ ⟨run, t, u, hpassage, rfl⟩
  obtain ⟨ht, hstock⟩ := hpassage.restocked (stocks_of_room hn hsa hroom)
  rw [Store.get?_beginRun] at hstock
  exact ⟨ht, hstock.of_held fun k hk => isSome_of_mem_heldInRun h hk⟩

/-- Where the last position does not fit, a run for nothing does nothing, and any other stops at the
suffix array. -/
theorem ends_construct_of_narrow (hmode : mode ≠ .compressed) (hnarrow : width.bound < text.size)
    (h : Bare text sa width mode ix.store) (kinds : List Kind) :
    Ends (construct kinds) ix (fun _ t => kinds = [] ∧ Bare text sa width mode t.store) fun e t =>
      kinds ≠ [] ∧ e = .manager .suffixArray
          (.storage (.valueTooWide (text.size - 1).toUInt64 width.bits)) ∧
        Bare text sa width mode t.store := by
  have hheld : ix.heldInRun kinds = [] := by
    apply List.eq_nil_iff_forall_not_mem.2
    intro k hk
    have hlive := (mem_heldInRun.1 hk).2.1
    rw [h.setup.isLive_eq, h.empty] at hlive
    cases hlive
  rw [ends_construct, hheld, List.append_nil, h.setup.mode_eq]
  obtain ⟨run, hstart⟩ := exists_start kinds mode
  refine (Run.run_refused (fun _ _ hs hk => hs.refused hn hmode hnarrow hk) hstart
    Store.manager_prepares h.beginRun).mono ?_ ?_
  · exact fun _ _ ht => ht
  · rintro e t ⟨hne, k, cause, rfl, -, rfl, rfl, ht⟩
    exact ⟨hne, rfl, ht⟩

end Construct

/-! ## After any calls -/

/-- An index as calls leave it. -/
structure Sound (text : SentinelText) (sa : List Nat) (width : Width) (mode : Mode) (ix : Index) :
    Prop where
  setup : Setup text sa width mode ix.store
  /-- With a width that is too narrow nothing can have been built. -/
  empty : mode ≠ .compressed → width.bound < text.size → ∀ k, ix.get? k = none

/-- An index without structures is sound. -/
theorem sound_of_bare (h : Bare text sa width mode ix.store) : Sound text sa width mode ix :=
  ⟨h.setup, fun _ _ => h.empty⟩

/-- Either every position fits what is built, or nothing is held. -/
theorem Sound.room_or_bare (h : Sound text sa width mode ix) :
    (mode ≠ .compressed → text.size ≤ width.bound) ∨
      mode ≠ .compressed ∧ width.bound < text.size ∧ Bare text sa width mode ix.store := by
  by_cases hroom : mode ≠ .compressed → text.size ≤ width.bound
  · exact Or.inl hroom
  · obtain ⟨hmode, hnarrow⟩ := Classical.not_imp.1 hroom
    have hnarrow := Nat.not_le.1 hnarrow
    exact Or.inr ⟨hmode, hnarrow, h.setup, h.empty hmode hnarrow⟩

/-- What building a kind keeps, requiring it keeps. -/
theorem require_keeps {P : Index → Prop} (h : P ix)
    (hconstruct : Ends (construct [k]) ix (fun _ t => P t) fun _ t => P t) :
    Ends (require k) ix (fun _ t => P t) fun _ t => P t := by
  unfold Index.require
  rw [ends_bind, ends_get, ends_ite]
  refine ⟨fun _ => ?_, fun _ => ?_⟩
  · rw [ends_bind, ends_discard]
    refine hconstruct.mono ?_ fun _ _ ht => ht
    intro _ t ht
    show Ends (get >>= _) t _ _
    rw [ends_bind, ends_get]
    split <;> exact ht
  · show Ends (get >>= _) ix _ _
    rw [ends_bind, ends_get]
    split <;> exact h

/-- Compressing in an index is compressing in its store. -/
theorem ends_compress {Q : Unit → Index → Prop} {F : IndexError → Index → Prop} :
    Ends (compress k) ix Q F ↔
      Ends (Store.compress k) ix.store (fun u s => Q u ⟨s⟩) fun e s => F e ⟨s⟩ := by
  unfold Ends compress
  dsimp only
  cases Store.compress k ix.store <;> exact Iff.rfl

section Calls

variable (hn : Measurable text.size) (hsa : Sorts (SuffixArray.codes text.bytes) sa)

include hn hsa

/-- Compressing a structure keeps an index sound, also if it fails. -/
theorem Sound.compress (h : Sound text sa width mode ix) (k : Kind) :
    Ends (compress k) ix (fun _ t => Sound text sa width mode t) fun _ t =>
      Sound text sa width mode t := by
  rw [ends_compress]
  have hkept : ∀ t, (Store.Keeps ix.store t ∧ ∀ j, (t.get? j).isSome = (ix.store.get? j).isSome) ∧
      Store.Good text sa t → Sound text sa width mode ⟨t⟩ := by
    rintro t ⟨⟨hkeeps, hsame⟩, hgood⟩
    refine ⟨h.setup.keeps hkeeps hgood, fun hmode hnarrow j => ?_⟩
    have hnone : ix.store.get? j = none := h.empty hmode hnarrow j
    have hj := hsame j
    rwa [hnone, Option.isSome_none, Option.isSome_eq_false_iff, Option.isNone_iff_eq_none] at hj
  apply (((Store.keeps_compress ix.store k).and (Store.isSome_compress ix.store k)).and
    (h.setup.good.compress hn hsa k)).mono
  · exact fun _ t ht => hkept t ht
  · exact fun _ t ht => hkept t ht

/-- Building kinds keeps an index sound, also if it fails. -/
theorem Sound.construct (h : Sound text sa width mode ix) (kinds : List Kind) :
    Ends (construct kinds) ix (fun _ t => Sound text sa width mode t) fun _ t =>
      Sound text sa width mode t := by
  rcases h.room_or_bare with hroom | ⟨hmode, hnarrow, hbare⟩
  · apply (ends_construct_of_room hn hsa hroom h.setup kinds).mono
    · intro _ t ht
      exact ⟨ht.1, fun hmode hnarrow => absurd (hroom hmode) (Nat.not_le.2 hnarrow)⟩
    · exact fun _ _ hF => hF.elim
  · apply (ends_construct_of_narrow hn hmode hnarrow hbare kinds).mono
    · exact fun _ _ ht => sound_of_bare ht.2
    · exact fun _ _ ht => sound_of_bare ht.2.2

/-- Asking for a structure keeps an index sound, also if it cannot be built. -/
theorem Sound.require (h : Sound text sa width mode ix) (k : Kind) :
    Ends (require k) ix (fun _ t => Sound text sa width mode t) fun _ t =>
      Sound text sa width mode t := require_keeps h (h.construct hn hsa [k])

/-- Every call keeps an index sound, also one that fails. -/
theorem Sound.after (h : Sound text sa width mode ix) (call : Call) :
    Sound text sa width mode (ix.after call) := by
  cases call with
  | construct kinds => exact Manager.reached_of_ends (h.construct hn hsa kinds)
  | require k => exact Manager.reached_of_ends (h.require hn hsa k)
  | take k =>
    refine ⟨h.setup.remove k, fun hmode hnarrow j => ?_⟩
    show (ix.store.remove k).get? j = none
    rw [Store.get?_remove, ite_eq_left_iff]
    exact fun _ => h.empty hmode hnarrow j
  | compress k => exact Manager.reached_of_ends (h.compress hn hsa k)
  | resetPeak =>
    have hgood : Store.Good text sa ix.store.resetPeak := ⟨h.setup.good.text_eq, h.setup.good.slots⟩
    exact ⟨⟨hgood, h.setup.width_eq, h.setup.mode_eq⟩, h.empty⟩

/-- After any calls an index is sound. -/
theorem Sound.afterAll (h : Sound text sa width mode ix) (calls : List Call) :
    Sound text sa width mode (ix.afterAll calls) := by
  induction calls generalizing ix with
  | nil => exact h
  | cons call calls ih => exact ih (h.after hn hsa call)

end Calls

/-- A new index over bytes other than zero. -/
theorem new_ok {bytes : Array UInt8} {config : Config} (h : Index.new bytes config = .ok ix) :
    ∃ width text, width.bits = config.fullWidth ∧ text.size = bytes.size + 1 ∧
      ix = ⟨.new text width config.mode⟩ := by
  unfold Index.new at h
  split at h
  · cases h
  · next width hwidth =>
    split at h
    · cases h
    · next text htext =>
      injection h with h
      refine ⟨width, text, (Width.ofNat?_eq_ok_iff.1 hwidth).symm, ?_, h.symm⟩
      unfold SentinelText.ofBytes? at htext
      split at htext
      · cases htext
      · injection htext with htext
        rw [← htext]
        rfl

/-- A text without zero bytes is indexed, at any width that there is. -/
theorem new_of_text (text : SentinelText) (width : Width) (mode : Mode) :
    Index.new text.body ⟨width.bits, mode⟩ = .ok ⟨.new text width mode⟩ := by
  have hbytes : SentinelText.ofBytes? text.body = .ok text := by
    unfold SentinelText.ofBytes?
    split
    · next i hi =>
      obtain ⟨hlt, hzero, -⟩ := Array.findIdx?_eq_some_iff_getElem.1 hi
      exact absurd (by simpa using hzero) (text.ne_sentinel _ (Array.getElem_mem hlt))
    · rfl
  unfold Index.new
  rw [Width.ofNat?_eq_ok_iff.2 rfl]
  simp only [hbytes]

/-- A new index holds nothing. -/
theorem get?_new (text : SentinelText) (width : Width) (mode : Mode) (k : Kind) :
    (⟨.new text width mode⟩ : Index).get? k = none := by
  unfold Index.get? Store.get? Store.slot Store.new
  simp

/-- A new index is sound. -/
theorem sound_new (text : SentinelText) (sa : List Nat) (width : Width) (mode : Mode) :
    Sound text sa width mode ⟨.new text width mode⟩ where
  setup := ⟨Store.good_new text sa width mode, rfl, rfl⟩
  empty _ _ k := get?_new text width mode k

/-! ## What a construct keeps and adds -/

/-- What a construct of the given kinds does to an index over a text whose last position, that of the
sentinel, is `last`. -/
structure KeepsAndAdds (config : Config) (last : Nat) (kinds : List Kind) (ix : Index) : Prop where
  /-- It fails exactly when anything is asked for, nothing is built compressed, and the last position
  does not fit the configured width. -/
  fails_iff : (∃ e t, construct kinds ix = .error e t) ↔
    kinds ≠ [] ∧ config.mode ≠ .compressed ∧ 2 ^ config.fullWidth ≤ last
  /-- The failure is the refusal of that position, when the suffix array is built, and nothing is held
  before or after. -/
  failure : ∀ e t, construct kinds ix = .error e t →
    e = .manager .suffixArray (.storage (.valueTooWide last.toUInt64 config.fullWidth)) ∧
      ∀ k, ix.store.isLive k = false ∧ t.store.isLive k = false
  /-- Otherwise what is held is what was held before, and what was asked for. -/
  live_iff : ∀ schedule t, construct kinds ix = .ok schedule t →
    ∀ k, t.store.isLive k = true ↔ ix.store.isLive k = true ∨ k ∈ kinds
  /-- Where nothing is compressed, what was held is the same vector, storage included. -/
  same : config.mode = .plain → ∀ schedule t, construct kinds ix = .ok schedule t →
    ∀ k, ix.store.isLive k = true → ∃ v, ix.get? k = some v ∧ t.get? k = some v

section KeepsAndAdds

variable {config : Config} (hn : Measurable text.size) (hwidth : width.bits = config.fullWidth)

include hwidth in
/-- The configured width is too narrow for the last position exactly if its bound is below the text. -/
theorem two_pow_le_iff : 2 ^ config.fullWidth ≤ text.size - 1 ↔ width.bound < text.size := by
  have hbound : width.bound = 2 ^ config.fullWidth := congrArg (2 ^ ·) hwidth
  have hpos : 0 < text.size := Nat.succ_pos _
  omega

include hn hwidth

/-- With room for every position, what was held stays and what was asked for is added. -/
theorem keepsAndAdds_of_room (hsa : Sorts (SuffixArray.codes text.bytes) sa)
    (hroom : config.mode ≠ .compressed → text.size ≤ width.bound)
    (h : Setup text sa width config.mode ix.store) :
    KeepsAndAdds config (text.size - 1) kinds ix := by
  have hends := ends_construct_of_room hn hsa hroom h kinds
  constructor
  · refine ⟨fun ⟨e, t, herror⟩ => (hends.of_error herror).elim, ?_⟩
    rintro ⟨-, hmode, hle⟩
    exact absurd (hroom hmode) (Nat.not_le.2 ((two_pow_le_iff hwidth).1 hle))
  · intro e t herror
    exact (hends.of_error herror).elim
  · intro schedule t hok k
    obtain ⟨ht, hstock⟩ := hends.of_ok hok
    rw [ht.isLive_eq, h.isLive_eq]
    exact hstock.isSome_iff k
  · intro hplain schedule t hok k hk
    obtain ⟨-, hstock⟩ := hends.of_ok hok
    rw [h.isLive_eq] at hk
    obtain ⟨v, hv⟩ := Option.isSome_iff_exists.1 hk
    exact ⟨v, hv, (hstock.same hplain k hk).trans hv⟩

/-- At a width that is too narrow nothing can be built, so there is nothing to lose. -/
theorem keepsAndAdds_of_narrow (hmode : config.mode ≠ .compressed)
    (hnarrow : width.bound < text.size) (h : Bare text sa width config.mode ix.store) :
    KeepsAndAdds config (text.size - 1) kinds ix := by
  have hends := ends_construct_of_narrow hn hmode hnarrow h kinds
  have hdead : ∀ {t : Index}, Bare text sa width config.mode t.store →
      ∀ k, t.store.isLive k = false := by
    intro t ht k
    rw [ht.setup.isLive_eq, ht.empty]
    rfl
  have hnotLive : ∀ {k}, ¬ ix.store.isLive k = true := fun hk => by
    rw [hdead h] at hk
    cases hk
  constructor
  · constructor
    · rintro ⟨e, t, herror⟩
      exact ⟨(hends.of_error herror).1, hmode, (two_pow_le_iff hwidth).2 hnarrow⟩
    · rintro ⟨hne, -⟩
      cases hrun : construct kinds ix with
      | ok schedule t => exact absurd (hends.of_ok hrun).1 hne
      | error e t => exact ⟨e, t, rfl⟩
  · intro e t herror
    obtain ⟨-, he, ht⟩ := hends.of_error herror
    rw [hwidth] at he
    exact ⟨he, fun k => ⟨hdead h k, hdead ht k⟩⟩
  · intro schedule t hok k
    obtain ⟨hnil, ht⟩ := hends.of_ok hok
    rw [hnil, hdead h, hdead ht]
    simp
  · intro _ schedule t _ k hk
    exact absurd hk hnotLive

end KeepsAndAdds

/-- Whatever has been asked of an index before, and whether it was carried out or not, a construct of
any kinds keeps what is held and adds what is asked for; it fails only where nothing can be built at
all, and then nothing is held. The storage of a structure is measured with 64-bit arithmetic, which is
exact for every text that fits into memory. -/
theorem construct_keeps_and_adds {bytes : Array UInt8} {config : Config} {ix : Index}
    (hn : Measurable (bytes.size + 1)) (hnew : Index.new bytes config = .ok ix) (calls : List Call)
    (kinds : List Kind) : KeepsAndAdds config bytes.size kinds (ix.afterAll calls) := by
  obtain ⟨width, text, hwidth, hsize, rfl⟩ := new_ok hnew
  rw [← hsize] at hn
  have hsa := (SuffixArray.correct_rankSuffixes
    (show 0 < text.bytes.size by simp [SentinelText.size])).sorts
  have hsound := (sound_new text _ width config.mode).afterAll hn hsa calls
  rw [show bytes.size = text.size - 1 by omega]
  rcases hsound.room_or_bare with hroom | ⟨hmode, hnarrow, hbare⟩
  · exact keepsAndAdds_of_room hn hwidth hsa hroom hsound.setup
  · exact keepsAndAdds_of_narrow hn hwidth hmode hnarrow hbare

/-- Over the bytes 98 and 97, where the last position is 2: with eight bits the suffix array and the
permuted prefix array are held and will be kept, and with a single bit nothing has been built. -/
theorem kept_and_added_over_pair :
    let text : SentinelText := ⟨#[98, 97], by simp⟩
    let wide : Index := ⟨.new text .byte .plain⟩
    let narrow : Index := ⟨.new text ⟨1, by decide, by decide⟩ .plain⟩
    let calls : List Call := [.construct [.suffixArray], .require .plcp, .compress .phi]
    (wide.afterAll calls).store.isLive .suffixArray = true ∧
      (wide.afterAll calls).store.isLive .plcp = true ∧
      KeepsAndAdds ⟨8, .plain⟩ 2 [.lcp] (wide.afterAll calls) ∧
      KeepsAndAdds ⟨1, .plain⟩ 2 [.lcp] (narrow.afterAll calls) := by
  intro text wide narrow calls
  have hn : Measurable (text.body.size + 1) := (by decide : 3 * 64 < UInt64.size)
  have hwide := construct_keeps_and_adds hn (new_of_text text .byte .plain) calls [.lcp]
  have hnarrow := construct_keeps_and_adds hn
    (new_of_text text ⟨1, by decide, by decide⟩ .plain) calls [.lcp]
  exact ⟨by decide +kernel, by decide +kernel, hwide, hnarrow⟩

end Index

end TextIndex
