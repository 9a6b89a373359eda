import TextIndex.Proofs.Plan.Stock
import TextIndex.Proofs.Store.Contents
import TextIndex.Proofs.Structure.Capacity

/-!
# A store as a manager with a stock

What a run relies on holds of a store (`manager_stocks`): from requirements that are there every kind can
be built, unless what is built uncompressed is too narrow for the positions of the text; a structure that
is there can be compressed; and no structure is touched but the one that is built, the inverse that comes
with the suffix array, and the phi array when it is not shared.

`Setup` is what the calls leave alone: the text, the width, the mode, and that all structures are right.
-/

set_option autoImplicit false

namespace TextIndex.Store

variable {s t : Store} {j k : Kind}

/-- The calls that build, compress and release leave the settings and the protection alone. -/
structure Keeps (s t : Store) : Prop where
  width_eq : t.width = s.width
  mode_eq : t.mode = s.mode
  shared_eq : ∀ k, (t.flags k).shared = (s.flags k).shared

/-- Where nothing is done everything is kept. -/
theorem keeps_refl (s : Store) : Keeps s s := ⟨rfl, rfl, fun _ => rfl⟩

/-- What is kept in two stretches is kept in the whole. -/
theorem Keeps.trans {u : Store} (h : Keeps s t) (h' : Keeps t u) : Keeps s u where
  width_eq := h'.width_eq.trans h.width_eq
  mode_eq := h'.mode_eq.trans h.mode_eq
  shared_eq k := (h'.shared_eq k).trans (h.shared_eq k)

/-- Changing a slot, but for its mark of being shared, keeps the set-up. -/
theorem keeps_updateSlot {f : Slot → Slot} (hf : (f (s.slot k)).flags.shared = (s.flags k).shared) :
    Keeps s (s.updateSlot k f).refresh where
  width_eq := rfl
  mode_eq := rfl
  shared_eq j := by
    rw [flags_refresh, flags_updateSlot]
    split
    · next heq =>
      rw [heq]
      exact hf
    · rfl

/-- Putting a structure into its slot keeps the set-up. -/
theorem keeps_put (s : Store) (k : Kind) (v : PackedVector) (compressed : Bool) :
    Keeps s (s.put k v compressed) := keeps_updateSlot rfl

/-- Taking a structure out keeps the set-up. -/
theorem keeps_remove (s : Store) (k : Kind) : Keeps s (s.remove k) := keeps_updateSlot rfl

section Changes

variable {P : Store → Prop}

/-- A store is changed by filling and emptying slots when a kind is built, whether or not that fails. -/
theorem changes_build (hput : ∀ t k v compressed, P t → P (t.put k v compressed))
    (hremove : ∀ t k, P t → P (t.remove k)) (hs : P s) (k : Kind) (compressed : Bool) :
    Ends (build k compressed) s (fun _ t => P t) fun _ t => P t := by
  apply (build_spec s k compressed).mono
  · intro _ t ht
    cases ht with
    | stored => exact hput _ _ _ _ hs
    | withInverse => exact hput _ _ _ _ (hput _ _ _ _ hs)
    | inPlace => exact hput _ _ _ _ (hremove _ _ hs)
  · rintro _ t (rfl | ⟨rfl, -⟩)
    · exact hs
    · exact hremove _ _ hs

/-- It is changed by replacing a structure and marking it when a kind is compressed. -/
theorem changes_compress (hreplace : ∀ t k v, P t →
      P (t.updateSlot k fun slot => ⟨{ slot.flags with compressed := true }, some v⟩).refresh)
    (hs : P s) (k : Kind) : Ends (compress k) s (fun _ t => P t) fun _ t => P t := by
  rw [ends_compress]
  exact ⟨fun _ => ⟨fun _ _ => ⟨fun _ _ => hreplace _ _ _ hs, fun _ _ => hs⟩, fun _ => hs⟩, fun _ => hs⟩

/-- A call to build puts structures in, takes them out and compresses them, and does nothing else. -/
theorem changes_construct (hput : ∀ t k v compressed, P t → P (t.put k v compressed))
    (hremove : ∀ t k, P t → P (t.remove k)) (hreplace : ∀ t k v, P t →
      P (t.updateSlot k fun slot => ⟨{ slot.flags with compressed := true }, some v⟩).refresh)
    (hs : P s) (k : Kind) (compressed : Bool) :
    Ends (construct k compressed) s (fun _ t => P t) fun _ t => P t := by
  rw [ends_construct]
  exact ⟨fun _ => ⟨fun _ => changes_compress hreplace hs k, fun _ => hs⟩,
    fun _ => changes_build hput hremove hs k compressed⟩

end Changes

/-- A call to compress keeps the set-up, also if it fails. -/
theorem keeps_compress (s : Store) (k : Kind) :
    Ends (compress k) s (fun _ t => Keeps s t) fun _ t => Keeps s t :=
  changes_compress (fun _ _ _ h => h.trans (keeps_updateSlot rfl)) (keeps_refl s) k

/-- Compressing makes no structure come or go. -/
theorem isSome_compress (s : Store) (k : Kind) :
    Ends (compress k) s (fun _ t => ∀ j, (t.get? j).isSome = (s.get? j).isSome)
      fun _ t => ∀ j, (t.get? j).isSome = (s.get? j).isSome := by
  rw [ends_compress]
  refine ⟨fun _ => ⟨fun v hv => ⟨fun v' _ j => ?_, fun _ _ _ => rfl⟩, fun _ _ => rfl⟩, fun _ _ => rfl⟩
  rw [get?_refresh, get?_updateSlot]
  split
  · next heq =>
    rw [heq, hv]
    rfl
  · rfl

/-- A call to build keeps the set-up, also if it fails. -/
theorem keeps_construct (s : Store) (k : Kind) (compressed : Bool) :
    Ends (construct k compressed) s (fun _ t => Keeps s t) fun _ t => Keeps s t :=
  changes_construct (fun _ _ _ _ h => h.trans (keeps_put ..)) (fun _ _ h => h.trans (keeps_remove ..))
    (fun _ _ _ h => h.trans (keeps_updateSlot rfl)) (keeps_refl s) k compressed

/-- A store writes protections down in its marks. -/
theorem manager_records : manager.Records fun s k => (s.flags k).shared = true where
  protect k s j := by
    show ((s.updateFlags k fun f => { f with shared := true }).flags j).shared = true ↔ _
    rw [flags_updateFlags]
    split <;> simp [*]
  unprotect k s j := by
    show ((s.updateFlags k fun f => { f with shared := false }).flags j).shared = true ↔ _
    rw [flags_updateFlags]
    split <;> simp [*]
  other call s j hprotect hunprotect := by
    suffices heq : ((manager.after s call).flags j).shared = (s.flags j).shared by rw [heq]
    cases call with
    | protect k => exact absurd rfl hprotect
    | unprotect k => exact absurd rfl hunprotect
    | ensure k =>
      show ((s.updateFlags k fun f => { f with registered := true }).flags j).shared = _
      rw [flags_updateFlags]
      split
      · next heq => rw [heq]
      · rfl
    | discard k intermediate => exact (keeps_remove s k).shared_eq j
    | construct k compressed =>
      exact (Manager.reached_of_ends (keeps_construct s k compressed)).shared_eq j
    | compress k => exact (Manager.reached_of_ends (keeps_compress s k)).shared_eq j

/-! ## Stores of one text -/

variable {text : SentinelText} {sa : List Nat} {width : Width} {mode : Mode}

/-- A store of a text with a width and a mode, in which every structure is right. -/
structure Setup (text : SentinelText) (sa : List Nat) (width : Width) (mode : Mode) (s : Store) :
    Prop where
  good : Good text sa s
  width_eq : s.width = width
  mode_eq : s.mode = mode

/-- A good store with the same set-up is set up. -/
theorem Setup.keeps (h : Setup text sa width mode s) (hkeeps : Keeps s t) (ht : Good text sa t) :
    Setup text sa width mode t :=
  ⟨ht, hkeeps.width_eq.trans h.width_eq, hkeeps.mode_eq.trans h.mode_eq⟩

/-- A structure is there exactly when its slot is marked. -/
theorem Setup.isLive_eq (h : Setup text sa width mode s) (k : Kind) :
    s.isLive k = (s.get? k).isSome := h.good.isLive_eq k

/-- A change of marks that is not about what is there keeps a store set up. -/
theorem Setup.updateFlags (h : Setup text sa width mode s) {f : SlotFlags → SlotFlags}
    (hf : (f (s.slot k).flags).live = (s.slot k).flags.live) :
    Setup text sa width mode (s.updateFlags k f) :=
  ⟨h.good.updateFlags hf, h.width_eq, h.mode_eq⟩

/-- Taking a structure out keeps a store set up. -/
theorem Setup.remove (h : Setup text sa width mode s) (k : Kind) :
    Setup text sa width mode (s.remove k) := h.keeps (keeps_remove s k) (h.good.remove k)

/-- Every call keeps the setup, also one that fails. -/
theorem Setup.after (hn : Measurable text.size) (hsa : Sorts (SuffixArray.codes text.bytes) sa)
    (h : Setup text sa width mode s) (call : Event Kind) :
    Setup text sa width mode (manager.after s call) := by
  have hgood := h.good.after hn hsa call
  cases call with
  | construct k compressed =>
    exact h.keeps (Manager.reached_of_ends (keeps_construct s k compressed)) hgood
  | compress k => exact h.keeps (Manager.reached_of_ends (keeps_compress s k)) hgood
  | ensure | discard | protect | unprotect => exact ⟨hgood, h.width_eq, h.mode_eq⟩

/-! ## What a kind is built from -/

/-- A kind that was not there has been built; another one has changed only if it comes with the kind or
was used up. -/
theorem supplied_of_get? {compressed : Bool} {shared : Kind → Prop} (hk : s.get? k = none)
    (hthere : (t.get? k).isSome)
    (hother : ∀ j, j ≠ k → t.get? j = s.get? j ∨
      (s.get? j = none ∧ j ∈ Kind.registry.byproducts k) ∨
      (t.get? j = none ∧ j ∈ Kind.registry.requirements k ∧ ¬ shared j)) :
    Supplied Kind.registry compressed k shared s.get? t.get? := by
  have hsame : ∀ j, (s.get? j).isSome → (j ∈ Kind.registry.requirements k → shared j) →
      t.get? j = s.get? j := by
    intro j hj hshared
    have hj := Option.isSome_iff_ne_none.1 hj
    have hne : j ≠ k := by
      rintro rfl
      exact hj hk
    rcases hother j hne with heq | ⟨hnone, -⟩ | ⟨-, hreq, hfree⟩
    · exact heq
    · exact absurd hnone hj
    · exact absurd (hshared hreq) hfree
  refine ⟨hthere, fun j hj hshared => by rw [hsame j hj hshared]; exact hj, fun _ => hsame, ?_⟩
  intro j hj
  by_cases hne : j = k
  · exact Or.inr (Or.inl hne)
  · rcases hother j hne with heq | ⟨-, hby⟩ | ⟨hnone, -⟩
    · exact Or.inl (heq ▸ hj)
    · exact Or.inr (Or.inr hby)
    · exact absurd hnone (Option.isSome_iff_ne_none.1 hj)

/-- What is built is supplied. -/
theorem Built.supplied {compressed : Bool} (hk : s.get? k = none)
    (ht : Built text sa compressed s k t) :
    Supplied Kind.registry compressed k (fun j => (s.flags j).shared = true) s.get? t.get? := by
  cases ht with
  | stored hv =>
    apply supplied_of_get? hk
    · simp
    · intro j hj
      simp [hj]
  | withInverse hv hu hempty =>
    apply supplied_of_get? hk
    · simp
    · intro j hj
      by_cases hinverse : j = .inverse
      · rw [hinverse]
        exact Or.inr (Or.inl ⟨hempty, by decide⟩)
      · simp [hj, hinverse]
  | inPlace hv hfree =>
    apply supplied_of_get? hk
    · simp
    · intro j hj
      by_cases hphi : j = .phi
      · rw [hphi]
        exact Or.inr (Or.inr ⟨by simp, by decide, hfree⟩)
      · simp [hj, hphi]

/-- The byte width, and the least width of the largest byte, hold every byte of the text. -/
theorem Setup.fits_byte (h : Setup text sa width mode s) (compressed : Bool) {b : UInt8}
    (hb : b ∈ text.bytes) :
    (if compressed then Width.least s.largestByte.toUInt64 else .byte).Fits b.toUInt64 := by
  unfold Width.Fits
  rw [UInt8.toNat_toUInt64]
  split
  · have hlargest := Width.fits_least s.largestByte.toUInt64
    unfold Width.Fits at hlargest
    rw [UInt8.toNat_toUInt64] at hlargest
    refine Nat.lt_of_le_of_lt ?_ hlargest
    unfold largestByte
    rw [h.good.text_eq, ← Array.foldl_toList]
    exact (le_foldl_max (fun _ _ => UInt8.le_iff_toNat_le) _ _).2 b (Array.mem_toList_iff.2 hb)
  · exact b.toNat_lt

section Supplies

variable {compressed : Bool} (hn : Measurable text.size)
  (hsa : Sorts (SuffixArray.codes text.bytes) sa)
  (hroom : compressed = false → text.size ≤ width.bound)

include hn hroom in
/-- Positions of the text fit the width for them. -/
theorem Setup.size_le_positionWidth (h : Setup text sa width mode s) :
    text.size ≤ (s.positionWidth compressed).bound := by
  unfold positionWidth
  rw [h.good.text_eq, h.width_eq]
  cases compressed with
  | true =>
    have hfits := Width.fits_least (text.size - 1).toUInt64
    have hpos : 0 < text.size := Nat.succ_pos _
    unfold Width.Fits at hfits
    rw [toNat_toUInt64_of_lt hn.lt_size (by omega)] at hfits
    show text.size ≤ (Width.least (text.size - 1).toUInt64).bound
    omega
  | false => exact hroom rfl

include hsa hroom in
/-- Common prefixes fit the width of positions, and the least width of the longest of them. -/
theorem Setup.fits_plcp (h : Setup text sa width mode s) {plcp : PackedVector}
    (hplcp : s.get? .plcp = some plcp) {x : UInt64} (hx : x ∈ plcp.toList) :
    (if compressed then Width.least plcp.maxValue else s.width).Fits x := by
  cases compressed with
  | true => exact Nat.lt_of_le_of_lt (plcp.le_maxValue hx) (Width.fits_least plcp.maxValue)
  | false =>
    rw [h.width_eq]
    refine (h.good.holds hplcp).fits hsa (by simp) ?_ hx
    rw [SuffixArray.length_codes, text.size_bytes]
    exact hroom rfl

include hn hsa hroom in
/-- Building does not fail if the requirements are there. -/
theorem Setup.build_succeeds (h : Setup text sa width mode s)
    (hreq : ∀ q ∈ Kind.registry.requirements k, (s.get? q).isSome) :
    Ends (build k compressed) s (fun _ _ => True) fun _ _ => False := by
  have htext := h.good.text_eq
  have hsize := text.size_bytes
  have hcodes := SuffixArray.length_codes text.bytes
  have hbytes : Measurable text.bytes.size := by rwa [hsize]
  have hlength : Measurable (SuffixArray.codes text.bytes).length := by rwa [hcodes]
  have hpositions : (SuffixArray.codes text.bytes).length ≤ (s.positionWidth compressed).bound := by
    rw [hcodes, hsize]
    exact h.size_le_positionWidth hn hroom
  have hthere : ∀ {q}, q ∈ Kind.registry.requirements k → s.get? q ≠ none := fun hq =>
    Option.isSome_iff_ne_none.1 (hreq _ hq)
  unfold build
  rw [ends_bind, ends_get]
  cases k with
  | suffixArray =>
    simp only [ends_bind, ends_get, ends_modify, ends_ite, ends_pure, htext]
    apply ends_ofVector_of_exists
    · exact exists_build hbytes.lt_size (hsize ▸ Nat.succ_pos _) (hcodes ▸ hpositions)
    · exact fun _ _ => ⟨fun _ => trivial, fun _ => trivial⟩
  | inverse =>
    simp only [ends_bind, ends_modify]
    refine ends_demand.2 ⟨fun v hv => ?_, hthere (by decide)⟩
    apply ends_ofVector_of_exists _ fun _ _ => trivial
    exact exists_invert hlength.lt_size hsa hpositions (h.good.holds hv)
  | phi =>
    simp only [ends_bind, ends_modify]
    refine ends_demand.2 ⟨fun v hv => ?_, hthere (by decide)⟩
    apply ends_ofVector_of_exists _ fun _ _ => trivial
    exact exists_phi hsa hpositions (h.good.holds hv)
  | plcp =>
    -- it is built at the width of the phi array, whatever `hroom` says
    simp only [ends_bind, ends_modify, htext]
    apply (phiStorage_spec s).mono
    · rintro v t ⟨phi, hphi, hv⟩
      have hholds : v.Holds (SuffixArray.codes text.bytes) sa .phi := by
        rcases hv with ⟨-, rfl, -⟩ | ⟨-, rfl, -⟩
        · exact (h.good.holds hphi).congr (h.good.holds hphi).housed rfl
        · exact h.good.holds hphi
      apply ends_ofVector_of_exists _ fun _ _ => trivial
      exact exists_plcp (endsWithLeast_bytes text) hsa (hbytes.measures _) hholds
    · exact fun _ _ ht => hthere (by decide) ht.1
  | lcp =>
    simp only [ends_bind, ends_modify]
    refine ends_demand.2 ⟨fun plcp hplcp => ?_, hthere (by decide)⟩
    refine ends_demand.2 ⟨fun v hv => ?_, hthere (by decide)⟩
    apply ends_ofVector_of_exists _ fun _ _ => trivial
    exact exists_lcp fun x hx => h.fits_plcp hsa hroom hplcp hx
  | bwt =>
    simp only [ends_bind, ends_modify, htext]
    refine ends_demand.2 ⟨fun v hv => ?_, hthere (by decide)⟩
    apply ends_ofVector_of_exists _ fun _ _ => trivial
    exact exists_transform fun b hb => h.fits_byte compressed hb

include hn hsa hroom in
/-- A kind that is not there is built if its requirements are. -/
theorem Setup.build_supplies (h : Setup text sa width mode s) (hk : s.get? k = none)
    (hreq : ∀ q ∈ Kind.registry.requirements k, (s.get? q).isSome) :
    Ends (build k compressed) s
      (fun _ t => Supplied Kind.registry compressed k (fun j => (s.flags j).shared = true) s.get? t.get?)
      fun _ _ => False :=
  ((h.build_succeeds hn hsa hroom hreq).and (h.good.build_ends hn hsa k compressed)).mono
    (fun _ _ ht => ht.2.supplied hk) fun _ _ hF => hF.1

include hn hsa

/-- A structure that is there can be brought to its least width. -/
theorem Setup.exists_shrunk (h : Setup text sa width mode s) {v : PackedVector}
    (hv : s.get? k = some v) : ∃ v', s.shrunk k v = .ok v' := by
  unfold shrunk
  split
  · next hpositions =>
    have hfits : ∀ x ∈ v.toList, (s.positionWidth true).Fits x := by
      intro x hx
      refine (h.good.holds hv).fits hsa ?_ ?_ hx
      · rintro rfl
        cases hpositions
      · rw [SuffixArray.length_codes, text.size_bytes]
        exact h.size_le_positionWidth hn (by simp)
    rw [PackedVector.setWidth_of_fits hfits]
    exact ⟨_, rfl⟩
  · exact ⟨_, rfl⟩

/-- A structure that is there is compressed, and what is there stays. -/
theorem Setup.exists_compress (h : Setup text sa width mode s) (hk : (s.get? k).isSome) :
    ∃ t, compress k s = .ok () t ∧ ∀ j, (t.get? j).isSome = (s.get? j).isSome := by
  have hdone : Ends (compress k) s (fun _ _ => True) fun _ _ => False := by
    rw [ends_compress]
    refine ⟨fun _ => ⟨fun v hv => ⟨fun _ _ => trivial, fun e he => ?_⟩, ?_⟩, fun _ => trivial⟩
    · obtain ⟨v', hv'⟩ := h.exists_shrunk hn hsa hv
      cases he.symm.trans hv'
    · exact Option.isSome_iff_ne_none.1 hk
  obtain ⟨u, t, ht, -⟩ := hdone.exists_ok
  exact ⟨t, ht, (isSome_compress s k).of_ok ht⟩

include hroom

/-- A kind whose requirements are there is built, or used if it is there itself. -/
theorem Setup.exists_construct (h : Setup text sa width mode s)
    (hreq : ∀ q ∈ Kind.registry.requirements k, (s.get? q).isSome) :
    ∃ t, construct k compressed s = .ok () t ∧
      Supplied Kind.registry compressed k (fun j => (s.flags j).shared = true) s.get? t.get? := by
  have hbuild : Ends (construct k compressed) s
      (fun _ t => Supplied Kind.registry compressed k (fun j => (s.flags j).shared = true) s.get? t.get?)
      fun _ _ => False := by
    rw [ends_construct]
    refine ⟨fun hk => ⟨fun hcompressed => ?_, fun _ => ?_⟩, fun hk => ?_⟩
    · rw [h.isLive_eq] at hk
      obtain ⟨t, ht, hsame⟩ := h.exists_compress hn hsa hk
      apply ends_of_ok ht
      refine ⟨(hsame k).trans hk, fun j hj _ => (hsame j).trans hj, ?_, fun j hj => ?_⟩
      · intro hnot
        rw [hcompressed] at hnot
        cases hnot
      · exact Or.inl ((hsame j).symm.trans hj)
    · rw [h.isLive_eq] at hk
      exact ⟨hk, fun _ hj _ => hj, fun _ _ _ _ => rfl, fun _ hj => Or.inl hj⟩
    · exact h.build_supplies hn hsa hroom (h.good.get?_eq_none hk) hreq
  obtain ⟨u, t, ht, hsupplied⟩ := hbuild.exists_ok
  exact ⟨t, ht, hsupplied⟩

/-- A store over a text is a manager with a stock. -/
theorem manager_stocks : manager.Stocks Kind.registry compressed (Setup text sa width mode) get?
    fun s k => (s.flags k).shared = true where
  records := manager_records
  keeps call _ h := h.after hn hsa call
  ensure k s _ := ⟨_, rfl, funext fun j => get?_updateFlags s k j _⟩
  protect k s := funext fun j => get?_updateFlags s k j _
  unprotect k s := funext fun j => get?_updateFlags s k j _
  discard k _ s := get?_remove s k
  construct _ _ h hreq := h.exists_construct hn hsa hroom hreq
  compress _ _ h hk := h.exists_compress hn hsa hk

end Supplies

/-! ## A new run -/

/-- What the single changes keep, starting a run keeps. -/
theorem beginRun_induction {P : Store → Prop}
    (hP : ∀ s k, P s → P (s.updateFlags k fun f => { f with shared := false })) (hs : P s) :
    P s.beginRun := by
  unfold beginRun
  generalize Kind.all = kinds
  induction kinds generalizing s with
  | nil => exact hs
  | cons k kinds ih => exact ih (hP s k hs)

/-- A new run changes no structure. -/
theorem get?_beginRun (s : Store) : s.beginRun.get? = s.get? := by
  apply beginRun_induction (P := fun t => t.get? = s.get?) _ rfl
  intro t k ht
  rw [← ht]
  exact funext fun j => get?_updateFlags t k j _

/-- A new run keeps a store set up. -/
theorem Setup.beginRun (h : Setup text sa width mode s) : Setup text sa width mode s.beginRun :=
  beginRun_induction (fun _ _ ht => ht.updateFlags rfl) h

/-- Nothing is shared when a run starts. -/
theorem shared_beginRun (s : Store) (k : Kind) : (s.beginRun.flags k).shared = false := by
  unfold Store.beginRun Kind.all
  simp only [List.foldl_cons, List.foldl_nil, flags_updateFlags]
  cases k <;> rfl

/-! ## A width that is too narrow

Only the suffix array can be built first, and it needs every position. So in a store with nothing in it
nothing can be built.
-/

/-- A store of a text in which nothing is. -/
structure Bare (text : SentinelText) (sa : List Nat) (width : Width) (mode : Mode) (s : Store) :
    Prop where
  setup : Setup text sa width mode s
  empty : ∀ k, s.get? k = none

/-- A change of marks that is not about what is there keeps a store bare. -/
theorem Bare.updateFlags (h : Bare text sa width mode s) {f : SlotFlags → SlotFlags}
    (hf : (f (s.slot k).flags).live = (s.slot k).flags.live) :
    Bare text sa width mode (s.updateFlags k f) where
  setup := h.setup.updateFlags hf
  empty j := (get?_updateFlags s k j f).trans (h.empty j)

/-- A new run keeps a store bare. -/
theorem Bare.beginRun (h : Bare text sa width mode s) : Bare text sa width mode s.beginRun where
  setup := h.setup.beginRun
  empty := by
    rw [get?_beginRun]
    exact h.empty

/-- A bare store stays so while kinds are made ready and protected, and refuses none of this. -/
theorem manager_prepares : manager.Prepares (Bare text sa width mode) where
  ensure _ _ h := ⟨_, rfl, h.updateFlags rfl⟩
  protect _ _ h := h.updateFlags (f := fun f => { f with shared := true }) rfl

/-- The last position of the text does not fit, and it is the first to be stored. -/
theorem Bare.refused (hn : Measurable text.size) (h : Bare text sa width mode s)
    (hmode : mode ≠ .compressed) (hnarrow : width.bound < text.size)
    (hk : Kind.registry.requirements k = []) :
    Ends (manager.construct k (mode = .compressed)) s (fun _ _ => False) fun e t =>
      k = .suffixArray ∧ e = .storage (.valueTooWide (text.size - 1).toUInt64 width.bits) ∧
        Bare text sa width mode t := by
  obtain rfl : k = .suffixArray := by
    revert hk
    cases k <;> decide
  have hsize := text.size_bytes
  have hbuild : SuffixArray.build s.text.bytes (s.positionWidth false) =
      .error (.valueTooWide (text.size - 1).toUInt64 width.bits) := by
    have hrefused := build_refused (endsWithLeast_bytes text) (hsize ▸ hn.lt_size) (hsize ▸ hnarrow)
    rw [hsize] at hrefused
    rw [h.setup.good.text_eq]
    show SuffixArray.build text.bytes s.width = _
    rw [h.setup.width_eq, hrefused]
  have hlive : ¬ s.isLive .suffixArray = true := by
    rw [h.setup.isLive_eq, h.empty]
    simp
  rw [decide_eq_false hmode]
  show Ends (construct .suffixArray false) s _ _
  rw [ends_construct]
  refine ⟨fun hk => absurd hk hlive, fun _ => ?_⟩
  unfold build
  simp only [ends_bind, ends_get, ends_ofVector, hbuild]
  refine ⟨fun _ hok => (by cases hok), fun e heq => ?_⟩
  injection heq with heq
  rw [← heq]
  exact ⟨trivial, rfl, h⟩

end TextIndex.Store
