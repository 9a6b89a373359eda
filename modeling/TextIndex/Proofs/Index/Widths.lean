import TextIndex.Proofs.Index.Results
import TextIndex.Proofs.Store.Origin

/-!
# The widths of what is not compressed

Between two calls of a client, what is held and not marked as compressed has its full width, except for
one kind. The permuted prefix array is built in the storage of the phi array, or in a copy of it, and
has its width. A client may have compressed the phi array before, and then the permuted prefix array is
narrow from the start and yet not marked. So its width depends on what the phi array was like when the
call began that the permuted prefix array stems from, which `narrowedAfter` reads off the calls.

This happens in plain mode only, because in the other modes everything is marked.
-/

set_option autoImplicit false

namespace TextIndex.Index

open Store (Setup Origins)

variable {text : SentinelText} {sa : List Nat} {width : Width} {ix : Index} {k : Kind}
  {narrowed : Bool}

/-- Whether a permuted prefix array is narrow that is held after the next call: it has been so before, or
there was none and the phi array is marked. -/
def narrows (ix : Index) (narrowed : Bool) : Bool :=
  if ix.store.isLive .plcp then narrowed else (ix.store.flags .phi).compressed

/-- Whether a permuted prefix array that is held after the calls was built over a phi array that had been
compressed. -/
def narrowedFrom (narrowed : Bool) : Index → List Call → Bool
  | _, [] => narrowed
  | ix, call :: calls => narrowedFrom (ix.narrows narrowed) (ix.after call) calls

/-- The same, for an index that holds nothing. -/
def narrowedAfter (ix : Index) (calls : List Call) : Bool := narrowedFrom false ix calls

/-- The width of a structure that is not marked. -/
def looseWidth (text : SentinelText) (width : Width) (narrowed : Bool) (k : Kind) : Width :=
  if k = .plcp ∧ narrowed then .least (text.size - 1).toUInt64 else if k = .bwt then .byte else width

/-- What is held and not marked has the width that is expected of it. -/
def Widths (text : SentinelText) (width : Width) (narrowed : Bool) (ix : Index) : Prop :=
  ∀ k v, ix.get? k = some v → (ix.store.flags k).compressed = false →
    v.width = looseWidth text width narrowed k

section

variable (hn : Measurable text.size) (hsa : Sorts (SuffixArray.codes text.bytes) sa)

include hn hsa

/-- A permuted prefix array that is built next is narrow if the phi array is marked. -/
theorem Settled.buildWidth_plcp (h : Settled text sa width .plain ix)
    (hwidths : Widths text width narrowed ix) : ix.store.buildWidth .plcp =
      looseWidth text width (ix.store.flags .phi).compressed .plcp := by
  cases hmark : (ix.store.flags .phi).compressed with
  | true =>
    obtain ⟨p, hp, hleast⟩ := h.booked.least .phi hmark
    have hcodes : (SuffixArray.codes text.bytes).length = text.size := by
      rw [SuffixArray.length_codes, text.size_bytes]
    have hholds := h.sound.setup.good.holds (k := .phi) hp
    rw [Store.buildWidth_plcp hp, hleast, maxValue_positions hsa (endsWithLeast_bytes text)
      (hcodes ▸ hn.lt_size) rfl hholds, hcodes]
    rfl
  | false =>
    cases hp : ix.store.get? .phi with
    | some p => exact (Store.buildWidth_plcp hp).trans (hwidths .phi p hp hmark)
    | none =>
      unfold Store.buildWidth
      rw [if_pos rfl, hp]
      exact h.sound.setup.width_eq

/-- What is kept keeps its width, and what is built has the width that is expected. -/
theorem Settled.widths_of_origins (h : Settled text sa width .plain ix)
    (hwidths : Widths text width narrowed ix) {t : Index} (horigins : Origins ix.store t.store) :
    Widths text width (ix.narrows narrowed) t := by
  intro k v hv hmark
  have hlive := h.sound.setup.isLive_eq .plcp
  have hother : ∀ b b', k ≠ .plcp → looseWidth text width b k = looseWidth text width b' k := by
    intro b b' hk
    unfold looseWidth
    simp only [hk, false_and, if_false]
  cases horigins k v hv with
  | kept hthere hsame =>
    rw [hwidths k v hthere (hsame.symm.trans hmark)]
    by_cases hk : k = .plcp
    · subst hk
      have hlive : ix.store.isLive .plcp = true := by rw [hlive, hthere]; rfl
      unfold narrows
      rw [if_pos hlive]
    · exact hother _ _ hk
  | built hnew _ hwidth =>
    rw [hwidth]
    by_cases hk : k = .plcp
    · subst hk
      have hlive : ix.store.isLive .plcp = false := by rw [hlive, hnew]; rfl
      unfold narrows
      rw [hlive, if_neg Bool.false_ne_true, h.buildWidth_plcp hn hsa hwidths]
    · unfold Store.buildWidth Store.fullWidth looseWidth
      simp only [hk, false_and, if_false, h.sound.setup.width_eq]

/-- A run loses nothing that was held, so it is a step from what was there to what has been built. -/
theorem construct_origins (hroom : text.size ≤ width.bound) (h : Setup text sa width .plain ix.store)
    (kinds : List Kind) :
    Ends (construct kinds) ix (fun _ t => Origins ix.store t.store) fun _ _ => False := by
  refine (construct_passes hn hsa (fun _ => hroom) h kinds).mono ?_ fun _ _ hF => hF
  rintro _ _ ⟨run, t, u, hpassage, rfl⟩
  refine hpassage.keeps_over_stock (stocks_of_room hn hsa fun _ => hroom) h.beginRun ?_ ?_
    (P := fun s => Origins ix.store s)
  · intro call s hcall hs hthere _ horigins
    rw [Store.get?_beginRun] at hthere
    exact horigins.trans hthere (hs.width_eq.trans h.width_eq.symm) (hs.good.origins_after hcall)
  · intro k v hv
    rw [Store.get?_beginRun] at hv
    exact .kept hv (by rw [Store.flags_beginRun])

/-- In plain mode building kinds keeps the widths as told, also if it fails. -/
theorem Settled.construct_widths (h : Settled text sa width .plain ix)
    (hwidths : Widths text width narrowed ix) (kinds : List Kind) :
    Ends (Index.construct kinds) ix (fun _ t => Widths text width (ix.narrows narrowed) t)
      fun _ t => Widths text width (ix.narrows narrowed) t := by
  rcases h.sound.room_or_bare with hroom | ⟨hmode, hnarrow, hbare⟩
  · exact (construct_origins hn hsa (hroom (by decide)) h.sound.setup kinds).mono
      (fun _ _ ht => h.widths_of_origins hn hsa hwidths ht) fun _ _ hF => hF.elim
  · have hempty : ∀ t : Index, Store.Bare text sa width .plain t.store →
        Widths text width (ix.narrows narrowed) t := by
      intro t ht k v hv
      cases (ht.empty k).symm.trans hv
    apply (ends_construct_of_narrow hn hmode hnarrow hbare kinds).mono
    · exact fun _ t ht => hempty t ht.2
    · exact fun _ t ht => hempty t ht.2.2

/-- In plain mode compressing a structure keeps the widths as told, also if it fails. -/
theorem Settled.compress_widths (h : Settled text sa width .plain ix)
    (hwidths : Widths text width narrowed ix) (k : Kind) :
    Ends (Index.compress k) ix (fun _ t => Widths text width (ix.narrows narrowed) t)
      fun _ t => Widths text width (ix.narrows narrowed) t := by
  have hsame := h.widths_of_origins hn hsa hwidths (Store.origins_refl ix.store) (t := ix)
  rw [ends_compress]
  apply (h.sound.setup.good.compress_ends hn hsa k).mono
  · intro _ t ht j v hv hmark
    -- what is not marked now was not compressed, so it is what it was
    obtain ⟨hloose, hne⟩ := ht.loose ⟨by rw [show t.get? j = some v from hv]; rfl, hmark⟩
    cases ht with
    | marked _ => exact hsame j v hv hmark
    | replaced _ _ =>
      have hv : (ix.store.updateSlot k _).refresh.get? j = some v := hv
      rw [Store.get?_refresh, Store.get?_updateSlot, if_neg hne] at hv
      exact hsame j v hv hloose.2
  · rintro _ t rfl
    exact hsame

/-- Every call leaves the widths as expected. -/
theorem Settled.widths_after (h : Settled text sa width .plain ix)
    (hwidths : Widths text width narrowed ix) (call : Call) :
    Widths text width (ix.narrows narrowed) (ix.after call) := by
  have hrefl := Store.origins_refl ix.store
  cases call with
  | construct kinds => exact Manager.reached_of_ends (h.construct_widths hn hsa hwidths kinds)
  | require k =>
    exact Manager.reached_of_ends (require_keeps (h.widths_of_origins hn hsa hwidths hrefl)
      (h.construct_widths hn hsa hwidths [k]))
  | take k => exact h.widths_of_origins hn hsa hwidths (hrefl.remove k)
  | compress k => exact Manager.reached_of_ends (h.compress_widths hn hsa hwidths k)
  | resetPeak => exact h.widths_of_origins hn hsa hwidths fun k v hv => .kept hv rfl

/-- In plain mode any calls keep the widths as told by what was compressed before. -/
theorem Settled.widths_afterAll (calls : List Call) : ∀ {ix : Index} {narrowed : Bool},
    Settled text sa width .plain ix → Widths text width narrowed ix →
      Widths text width (narrowedFrom narrowed ix calls) (ix.afterAll calls) := by
  induction calls with
  | nil => exact fun _ hwidths => hwidths
  | cons call calls ih =>
    exact fun h hwidths => ih (h.after hn hsa call) (h.widths_after hn hsa hwidths call)

end

/-- Whatever has been asked of an index, each structure that is held and not marked as compressed has the
configured width, or that of a byte for the transform. Only a permuted prefix array that was built over
a compressed phi array has the least width for positions instead. The storage of a structure is
measured with 64-bit arithmetic, which is exact for every text that fits into memory. -/
theorem width_of_uncompressed {bytes : Array UInt8} {config : Config} {ix : Index}
    (hn : Measurable (bytes.size + 1)) (hnew : Index.new bytes config = .ok ix) (calls : List Call)
    (k : Kind) (hlive : (ix.afterAll calls).store.isLive k = true)
    (hmark : ((ix.afterAll calls).store.flags k).compressed = false) :
    ∃ v, (ix.afterAll calls).get? k = some v ∧ v.width.bits =
      if k = .plcp ∧ ix.narrowedAfter calls then (Width.least bytes.size.toUInt64).bits
      else if k = .bwt then 8 else config.fullWidth := by
  obtain ⟨width, text, sa, hwidth, hsize, hsa, rfl⟩ := new_sorted hnew
  rw [← hsize] at hn
  have hsettled := settled_new text sa width config.mode
  have hend := hsettled.afterAll hn hsa calls
  have hthere := hend.sound.setup.isLive_eq k
  rw [hlive] at hthere
  obtain ⟨v, hv⟩ := Option.isSome_iff_exists.1 hthere.symm
  have hplain : config.mode = .plain := by
    by_contra hmode
    exact hend.tight hmode k ⟨hthere.symm, hmark⟩
  rw [hplain] at hsettled hv hmark ⊢
  have hstart : Widths text width false ⟨.new text width .plain⟩ := by
    intro k v hv
    cases (get?_new text width .plain k).symm.trans hv
  refine ⟨v, hv, ?_⟩
  rw [hsettled.widths_afterAll hn hsa calls hstart k v hv hmark]
  have hlast : text.size - 1 = bytes.size := by omega
  unfold looseWidth narrowedAfter
  rw [hlast, ← hwidth]
  split
  · rfl
  · split <;> rfl

/-- Over the bytes 98 and 97, with entries of a byte. The phi array is compressed between two runs, and
the permuted prefix array is built over it. -/
theorem width_of_uncompressed_over_pair :
    let text : SentinelText := ⟨#[98, 97], by simp⟩
    let ix : Index := ⟨.new text .byte .plain⟩
    let calls : List Call := [.construct [.phi], .compress .phi, .construct [.plcp, .suffixArray]]
    let held := ix.afterAll calls
    (∃ v, held.get? .suffixArray = some v ∧ v.width.bits = 8) ∧
      ∃ v, held.get? .plcp = some v ∧ v.width.bits = 2 := by
  intro text ix calls held
  have hn : Measurable (text.body.size + 1) := (by decide : 3 * 64 < UInt64.size)
  have hnew := new_of_text text .byte .plain
  have hnarrowed : ix.narrowedAfter calls = true := by decide +kernel
  obtain ⟨v, hv, hwide⟩ :=
    width_of_uncompressed hn hnew calls .suffixArray (by decide +kernel) (by decide +kernel)
  obtain ⟨u, hu, hnarrow⟩ :=
    width_of_uncompressed hn hnew calls .plcp (by decide +kernel) (by decide +kernel)
  refine ⟨⟨v, hv, ?_⟩, u, hu, ?_⟩
  · rw [hwide, if_neg (by decide), if_neg (by decide)]
    rfl
  · rw [hnarrow, if_pos ⟨rfl, hnarrowed⟩]
    decide +kernel

/-- There the permuted prefix array has neither the configured width nor a mark. -/
theorem prefixes_narrow_and_unmarked :
    let ix : Index := ⟨.new ⟨#[98, 97], by simp⟩ .byte .plain⟩
    let held := ix.afterAll [.construct [.phi], .compress .phi, .construct [.plcp]]
    held.store.isLive .plcp = true ∧ (held.store.flags .plcp).compressed = false ∧
      held.store.width.bits = 8 ∧ (held.get? .plcp).map (fun v => v.width.bits) = some 2 := by
  decide +kernel

end TextIndex.Index
