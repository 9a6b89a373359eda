import TextIndex.Proofs.Store.Origin
import TextIndex.Proofs.Structure.Reserve

/-!
# What a call that is carried out does to the storage

A planner that goes on has had its last call carried out. What this did to a store, one can tell from the
call and the store before (`Carried`).

* A kind that is not there is built (`Raised`). Nothing comes or goes but the kind, the inverse that comes with
  the suffix array, and the phi array that is used up; and what is new has a width and a reservation that are
  known beforehand (`New`).
* A kind that is there is left alone, or brought to its least width (`Shrunk`), after which it reserves
  no word that it does not need.
* The other calls change marks, or take a structure out.
-/

set_option autoImplicit false

namespace TextIndex.Store

variable {s t : Store} {j k : Kind} {text : SentinelText} {sa : List Nat} {compressed : Bool}
  {v : PackedVector}

/-- All structures are tidy. -/
def Tidied (s : Store) : Prop := ∀ k v, s.get? k = some v → v.Tidy

/-! ## Building -/

/-- The words that are reserved for a structure that is built in the given width. The permuted prefix
array takes the storage of the phi array, unless that is shared, and gives back what it does not need when it is
built compressed. -/
def reservation (s : Store) (k : Kind) (compressed : Bool) (w : Width) : Nat :=
  match k with
  | .suffixArray | .bwt => w.wordsFor s.text.size
  | .inverse | .phi | .lcp => max 4 (w.wordsFor s.text.size)
  | .plcp =>
    if compressed ∨ (s.flags .phi).shared then w.wordsFor s.text.size
    else (s.get? .phi).elim 0 fun v => v.buffer.capacity

/-- Compressed, or made of a copy, the permuted prefix array reserves only what it uses. -/
theorem reservation_of_cut {w : Width} (h : compressed = true ∨ (s.flags .phi).shared = true) :
    s.reservation .plcp compressed w = w.wordsFor s.text.size := if_pos h

/-- Made in the place of the phi array it has the reservation of that one. -/
theorem reservation_inPlace {w : Width} (hfree : (s.flags .phi).shared = false)
    (hv : s.get? .phi = some v) : s.reservation .plcp false w = v.buffer.capacity := by
  unfold reservation
  rw [hv]
  exact if_neg (by simp [hfree])

/-- The kind is there after `k` has been built. -/
def ThereAfter (s : Store) (k j : Kind) : Prop :=
  j = k ∨ (k = .suffixArray ∧ j = .inverse) ∨
    ((s.get? j).isSome ∧ ¬ (k = .plcp ∧ j = .phi ∧ (s.flags .phi).shared = false))

/-- The kind `k` has been built from what it requires, and what is new has the property `P`. -/
structure Raised (s : Store) (k : Kind) (P : Kind → PackedVector → Prop) (t : Store) : Prop where
  there_iff : ∀ j, (t.get? j).isSome ↔ s.ThereAfter k j
  old_or_new : ∀ j v, t.get? j = some v → s.get? j = some v ∨ (s.get? j = none ∧ P j v)
  source : k = .plcp → (s.get? .phi).isSome

/-- What is new is the kind itself, or the inverse that comes with the suffix array. -/
theorem Raised.kind_of_new {P : Kind → PackedVector → Prop} (h : Raised s k P t) (hv : t.get? j = some v)
    (hnew : s.get? j = none) : j = k ∨ k = .suffixArray ∧ j = .inverse := by
  rcases (h.there_iff j).1 (Option.isSome_of_eq_some hv) with hk | hinverse | ⟨hthere, -⟩
  · exact Or.inl hk
  · exact Or.inr hinverse
  · rw [hnew] at hthere
    cases hthere

/-- After a structure was put into its slot, what is there is that one or was there before. -/
theorem eq_or_of_put {u : PackedVector} (h : (s.put k v compressed).get? j = some u) :
    (j = k ∧ u = v) ∨ s.get? j = some u := by
  rw [get?_put] at h
  split at h
  · next heq => exact Or.inl ⟨heq, (Option.some.inj h).symm⟩
  · exact Or.inr h

/-- What is there after taking a structure out was there before. -/
theorem get?_of_remove (h : (s.remove k).get? j = some v) : s.get? j = some v := by
  rw [get?_remove] at h
  split at h
  · cases h
  · exact h

section Placed

variable {P : Kind → PackedVector → Prop} (h : Good text sa s) (ht : Placed s compressed P k t)

include h ht

/-- After a kind was built exactly those kinds are there that should be. -/
theorem Placed.thereAfter_iff (j : Kind) : (t.get? j).isSome ↔ s.ThereAfter k j := by
  unfold ThereAfter
  cases ht with
  | stored _ hinverse hphi =>
    rw [get?_put]
    by_cases hj : j = k
    · simp [hj]
    · rw [if_neg hj]
      constructor
      · intro hthere
        refine Or.inr (Or.inr ⟨hthere, ?_⟩)
        rintro ⟨hplcp, -, hfree⟩
        rw [(hphi hplcp).2] at hfree
        cases hfree
      · rintro (heq | ⟨hsa, rfl⟩ | ⟨hthere, -⟩)
        · exact absurd heq hj
        · exact (h.isLive_eq .inverse).symm.trans (hinverse hsa)
        · exact hthere
  | withInverse _ _ _ =>
    by_cases hj : j = .inverse
    · simp [hj]
    · by_cases hj' : j = .suffixArray <;> simp [hj, hj']
  | inPlace _ _ hfree =>
    by_cases hj : j = .plcp
    · simp [hj]
    · by_cases hj' : j = .phi <;> simp [hj, hj', hfree]

/-- What is there after building a kind was there before, or is new and as it should be. -/
theorem Placed.old_or_new (hk : s.get? k = none) (hv : t.get? j = some v) :
    s.get? j = some v ∨ (s.get? j = none ∧ P j v) := by
  cases ht with
  | stored hnew _ _ =>
    rcases eq_or_of_put hv with ⟨rfl, rfl⟩ | hold
    · exact Or.inr ⟨hk, hnew⟩
    · exact Or.inl hold
  | withInverse hnew hnew' hempty =>
    rcases eq_or_of_put hv with ⟨rfl, rfl⟩ | hv
    · exact Or.inr ⟨h.get?_eq_none hempty, hnew'⟩
    · rcases eq_or_of_put hv with ⟨rfl, rfl⟩ | hold
      · exact Or.inr ⟨hk, hnew⟩
      · exact Or.inl hold
  | inPlace hnew _ _ =>
    rcases eq_or_of_put hv with ⟨rfl, rfl⟩ | hold
    · exact Or.inr ⟨hk, hnew⟩
    · exact Or.inl (get?_of_remove hold)

/-- Where a kind that was missing is placed the store is raised. -/
theorem Placed.raised (hk : s.get? k = none) : Raised s k P t where
  there_iff := ht.thereAfter_iff h
  old_or_new _ _ := ht.old_or_new h hk
  source hplcp := by
    cases ht with
    | stored _ _ hphi => exact (hphi hplcp).1
    | withInverse _ _ _ => cases hplcp
    | inPlace _ hphi _ => exact hphi

end Placed

/-- A structure of the kind `j` that has been put into the store when `k` was built. -/
structure New (text : SentinelText) (sa : List Nat) (s : Store) (k : Kind) (compressed : Bool) (j : Kind)
    (v : PackedVector) : Prop where
  made : Made text sa compressed j v
  width_eq : compressed = false → v.width = s.buildWidth j
  reserves : v.Reserves (s.reservation k compressed v.width)

section Calls

variable (hn : Measurable text.size) (hsa : Sorts (SuffixArray.codes text.bytes) sa)

/-- The number of elements of a structure that is right. -/
theorem Good.length_eq (h : Good text sa s) (hv : s.get? k = some v) : v.length = s.text.size := by
  rw [(h.holds hv).length_eq, SuffixArray.length_codes, text.size_bytes, h.text_eq]

include hn

/-- The permuted prefix array keeps the storage it is built in, and gives back what it does not need when it is
compressed. -/
theorem Good.reserves_of_phi (h : Good text sa s) (htidy : Tidied s) (compressed : Bool) {phi : PackedVector}
    (hphi : s.get? .phi = some phi)
    (hv : CommonPrefix.plcp s.text.bytes (if (s.flags .phi).shared then phi.copy else phi) = .ok v) :
    (if compressed then v.bitCompress else v).Reserves
      (s.reservation .plcp compressed (if compressed then v.bitCompress else v).width) := by
  have hm : ∀ w : Width, w.Measures phi.length := (measurable_length hn (h.holds hphi)).measures
  have hphi' : phi.Reserves phi.buffer.capacity := ⟨htidy .phi phi hphi, rfl⟩
  have hcopy : phi.copy.Reserves (phi.width.wordsFor phi.length) := hphi'.tidy.reserves_shrinkToFit (hm _)
  have hlength := h.length_eq hphi
  rw [hlength] at hm hcopy
  cases compressed with
  | true =>
    have hstorage : (if (s.flags .phi).shared then phi.copy else phi).Tidy ∧
        (if (s.flags .phi).shared then phi.copy else phi).length = s.text.size := by
      split
      · exact ⟨hcopy.tidy, hlength⟩
      · exact ⟨hphi'.tidy, hlength⟩
    have hlength' : v.length = s.text.size := (length_plcp hv).trans hstorage.2
    have hcut := PackedVector.reserves_bitCompress (reserves_plcp ⟨hstorage.1, rfl⟩ hv).tidy
      (hlength' ▸ hm _)
    rw [hlength'] at hcut
    rwa [reservation_of_cut (Or.inl rfl)]
  | false =>
    cases hshared : (s.flags .phi).shared with
    | true =>
      rw [hshared, if_pos rfl] at hv
      rw [reservation_of_cut (Or.inr hshared)]
      show v.Reserves (v.width.wordsFor s.text.size)
      rw [width_plcp hv]
      exact reserves_plcp hcopy hv
    | false =>
      rw [hshared, if_neg Bool.false_ne_true] at hv
      rw [reservation_inPlace hshared hphi]
      exact reserves_plcp hphi' hv

/-- What is computed from structures in order reserves what its kind tells. -/
theorem Good.reserves_of_computed (h : Good text sa s) (htidy : Tidied s)
    (hv : Computed s compressed k j v) : v.Reserves (s.reservation k compressed v.width) := by
  have hpos : 0 < s.text.size := Nat.succ_pos _
  have hm : ∀ w : Width, w.Measures s.text.size := (h.text_eq ▸ hn : Measurable s.text.size).measures
  have hbytes := s.text.size_bytes
  cases hv with
  | positions hpair =>
    have hreserves := (reserves_build (hbytes ▸ hm _) (hbytes ▸ hpos) hpair).1
    rwa [hbytes, ← (width_build hpair).1] at hreserves
  | ranks hpair =>
    have hreserves := (reserves_build (hbytes ▸ hm _) (hbytes ▸ hpos) hpair).2
    rwa [hbytes, ← (width_build hpair).2] at hreserves
  | inverse hu hv =>
    have hlength := h.length_eq hu
    have hreserves := reserves_invert (hlength ▸ hm _) (hlength ▸ hpos) hv
    rwa [hlength, ← width_invert hv] at hreserves
  | phi hu hv =>
    have hlength := h.length_eq hu
    have hreserves := reserves_phi (hlength ▸ hm _) (hlength ▸ hpos) hv
    rwa [hlength, ← width_phi hv] at hreserves
  | plcp hphi hv => exact h.reserves_of_phi hn htidy compressed hphi hv
  | lcp _ hu hv =>
    have hlength := h.length_eq hu
    have hreserves := reserves_lcp (hlength ▸ hm _) (hlength ▸ hpos) hv
    rwa [hlength, ← width_lcp hv] at hreserves
  | bwt hu hv =>
    have hlength := h.length_eq hu
    have hreserves := reserves_transform (hlength ▸ hm _) hv
    rwa [hlength, ← width_transform hv] at hreserves

include hsa

/-- What is computed from a tidy store is new in it. -/
theorem Good.new_of_computed (h : Good text sa s) (htidy : Tidied s) (hv : Computed s compressed k j v) :
    New text sa s k compressed j v where
  made := h.made_of_computed hn hsa hv
  width_eq := by
    rintro rfl
    exact hv.buildWidth_eq
  reserves := h.reserves_of_computed hn htidy hv

/-- Building a kind that is not there. -/
theorem Good.build_raises (h : Good text sa s) (htidy : Tidied s) (hk : s.get? k = none) :
    Ends (Store.build k compressed) s (fun _ t => Raised s k (New text sa s k compressed) t)
      fun _ _ => True := by
  refine (build_spec s k compressed).mono (fun _ t ht => ?_) fun _ _ _ => trivial
  exact (ht.mono fun _ _ hv => h.new_of_computed hn hsa htidy hv).raised h hk

end Calls

/-! ## Compressing -/

/-- The kind `k` has its least width and reserves what it needs, or it was marked and is as it was. -/
structure Shrunk (text : SentinelText) (sa : List Nat) (s : Store) (k : Kind) (t : Store) : Prop where
  there_eq : ∀ j, (t.get? j).isSome = (s.get? j).isSome
  old_or_shrunk : ∀ j v, t.get? j = some v →
    (s.get? j = some v ∧ (t.flags j).compressed = (s.flags j).compressed) ∨
      (j = k ∧ Made text sa true k v ∧ v.Reserves (v.width.wordsFor s.text.size))

section Calls

variable (hn : Measurable text.size) (hsa : Sorts (SuffixArray.codes text.bytes) sa)

include hn

/-- What has been brought to its least width reserves what it needs. -/
theorem Good.shrunk_reserves (h : Good text sa s) (htidy : Tidied s) {v' : PackedVector}
    (hv : s.get? k = some v) (hshrunk : s.shrunk k v = .ok v') :
    v'.Reserves (v'.width.wordsFor s.text.size) := by
  have hm : ∀ w : Width, w.Measures v.length := (measurable_length hn (h.holds hv)).measures
  rw [← h.length_eq hv]
  unfold shrunk at hshrunk
  split at hshrunk
  · cases hset : v.setWidth (s.positionWidth true) with
    | error e =>
      rw [hset] at hshrunk
      cases hshrunk
    | ok u =>
      rw [hset] at hshrunk
      injection hshrunk with hshrunk
      subst hshrunk
      have hpacked := PackedVector.repacked_setWidth (h.holds hv).housed (hm _) (hm _) hset
      have hlength : u.length = v.length := by
        rw [← u.length_toList, hpacked.toList_eq, v.length_toList]
      have hcut := (hpacked.tidy (htidy k v hv)).reserves_shrinkToFit (by rw [hlength]; exact hm _)
      rwa [hlength] at hcut
  · injection hshrunk with hshrunk
    subst hshrunk
    exact PackedVector.reserves_bitCompress (htidy k v hv) (hm _)

include hsa

/-- A call to compress that succeeds shrinks one structure at most. -/
theorem Good.compress_shrinks (h : Good text sa s) (htidy : Tidied s) (k : Kind) :
    Ends (Store.compress k) s (fun _ t => Shrunk text sa s k t) fun _ _ => True := by
  rw [ends_compress]
  refine ⟨fun _ => ⟨fun v hv => ⟨fun v' hv' => ?_, fun _ _ => trivial⟩, fun _ => trivial⟩, fun _ => ?_⟩
  · constructor
    · intro j
      rw [get?_refresh, get?_updateSlot]
      split
      · next heq => rw [heq, hv]; rfl
      · rfl
    · intro j u hu
      rw [get?_refresh, get?_updateSlot] at hu
      rw [flags_refresh, flags_updateSlot]
      split at hu
      · next heq =>
        injection hu with hu
        subst hu
        exact Or.inr ⟨heq, h.made_shrunk hn hsa (h.holds hv) hv', h.shrunk_reserves hn htidy hv hv'⟩
      · next hne => exact Or.inl ⟨hu, by rw [if_neg hne]⟩
  · exact ⟨fun _ => rfl, fun _ _ hv => Or.inl ⟨hv, rfl⟩⟩

end Calls

/-! ## All calls -/

/-- What a call that is carried out makes of the store `s`. -/
inductive Carried (text : SentinelText) (sa : List Nat) (s : Store) : Event Kind → Store → Prop where
  | ensure (k : Kind) :
    Carried text sa s (.ensure k) (s.updateFlags k fun f => { f with registered := true })
  | protect (k : Kind) :
    Carried text sa s (.protect k) (s.updateFlags k fun f => { f with shared := true })
  | unprotect (k : Kind) :
    Carried text sa s (.unprotect k) (s.updateFlags k fun f => { f with shared := false })
  | discard (k : Kind) (intermediate : Bool) :
    Carried text sa s (.discard k intermediate) (s.remove k)
  | compress {k : Kind} {t : Store} (ht : Shrunk text sa s k t) : Carried text sa s (.compress k) t
  /-- A kind that is there is used as it is, … -/
  | used {k : Kind} (hk : (s.get? k).isSome) : Carried text sa s (.construct k false) s
  /-- … or compressed. -/
  | reduced {k : Kind} {t : Store} (hk : (s.get? k).isSome) (ht : Shrunk text sa s k t) :
    Carried text sa s (.construct k true) t
  | raised {k : Kind} {compressed : Bool} {t : Store} (hk : s.get? k = none)
    (ht : Raised s k (New text sa s k compressed) t) : Carried text sa s (.construct k compressed) t

/-- A call that is carried out does to a tidy store what calls of its sort do. -/
theorem Good.carried (hn : Measurable text.size) (hsa : Sorts (SuffixArray.codes text.bytes) sa)
    (h : Good text sa s) (htidy : Tidied s) {call : Event Kind} (hok : manager.answer call s = .ok () t) :
    Carried text sa s call t := by
  cases call with
  | ensure k => cases hok; exact .ensure k
  | protect k => cases hok; exact .protect k
  | unprotect k => cases hok; exact .unprotect k
  | discard k intermediate => cases hok; exact .discard k intermediate
  | compress k => exact .compress ((h.compress_shrinks hn hsa htidy k).of_ok hok)
  | construct k compressed =>
    have hconstruct : Ends (Store.construct k compressed) s
        (fun _ t => Carried text sa s (.construct k compressed) t) fun _ _ => True := by
      rw [ends_construct]
      refine ⟨fun hk => ⟨?_, ?_⟩, fun hk => ?_⟩
      · rintro rfl
        exact (h.compress_shrinks hn hsa htidy k).mono (fun _ _ ht => .reduced (h.isLive_eq k ▸ hk) ht)
          fun _ _ hF => hF
      · rintro rfl
        exact .used (h.isLive_eq k ▸ hk)
      · have hnone := h.get?_eq_none hk
        exact (h.build_raises hn hsa htidy hnone).mono (fun _ _ ht => .raised hnone ht)
          fun _ _ hF => hF
    exact hconstruct.of_ok hok

/-- What is there after a call that was carried out has been there before, or has just been brought to its
least width, or is new. -/
theorem Carried.old_or_new {call : Event Kind} (h : Carried text sa s call t) (hv : t.get? j = some v) :
    s.get? j = some v ∨ (Made text sa true j v ∧ v.Reserves (v.width.wordsFor s.text.size)) ∨
      ∃ k compressed, s.get? j = none ∧ (j = k ∨ k = .suffixArray ∧ j = .inverse) ∧
        New text sa s k compressed j v := by
  cases h with
  | ensure k | protect k | unprotect k =>
    rw [get?_updateFlags] at hv
    exact Or.inl hv
  | discard k intermediate =>
    rw [get?_remove] at hv
    split at hv
    · cases hv
    · exact Or.inl hv
  | used _ => exact Or.inl hv
  | compress ht | reduced _ ht =>
    rcases ht.old_or_shrunk j v hv with ⟨hold, -⟩ | ⟨rfl, hmade, hreserves⟩
    · exact Or.inl hold
    · exact Or.inr (Or.inl ⟨hmade, hreserves⟩)
  | @raised k compressed _ _ ht =>
    rcases ht.old_or_new j v hv with hold | ⟨hnone, hnew⟩
    · exact Or.inl hold
    · exact Or.inr (Or.inr ⟨k, compressed, hnone, ht.kind_of_new hv hnone, hnew⟩)

/-- A call that is carried out leaves a store tidy. -/
theorem Carried.tidied {call : Event Kind} (htidy : Tidied s) (h : Carried text sa s call t) :
    Tidied t := by
  intro j v hv
  rcases h.old_or_new hv with hold | ⟨-, hreserves⟩ | ⟨_, _, -, -, hnew⟩
  · exact htidy j v hold
  · exact hreserves.tidy
  · exact hnew.reserves.tidy

/-! ## Stores in order -/

variable {width : Width} {mode : Mode}

/-- A store of a text in which all structures are right and tidy, and so are the books. -/
structure InOrder (text : SentinelText) (sa : List Nat) (width : Width) (mode : Mode) (s : Store) :
    Prop where
  setup : Setup text sa width mode s
  tidied : Tidied s
  booked : Booked s

/-- Nothing is out of order where nothing is. -/
theorem inOrder_of_bare (h : Bare text sa width mode s) (hbooked : Booked s) :
    InOrder text sa width mode s where
  setup := h.setup
  tidied k v hv := by cases (h.empty k).symm.trans hv
  booked := hbooked

section Calls

variable (hn : Measurable text.size) (hsa : Sorts (SuffixArray.codes text.bytes) sa)

include hn hsa

/-- A call is carried out, or leaves the store as it is. -/
theorem InOrder.carried_or_same (h : InOrder text sa width mode s) (call : Event Kind) :
    Carried text sa s call (manager.after s call) ∨ manager.after s call = s := by
  cases hanswer : manager.answer call s with
  | ok u t =>
    left
    rw [Manager.after_of_ok hanswer]
    exact h.setup.good.carried hn hsa h.tidied hanswer
  | error e t =>
    right
    rw [Manager.after_of_error hanswer]
    cases call with
    | construct k compressed =>
      exact (h.setup.good.construct_posts hn hsa h.booked k compressed).of_error hanswer
    | compress k => exact (h.setup.good.compress_posts hn hsa h.booked k).of_error hanswer
    | ensure | discard | protect | unprotect => cases hanswer

/-- Every call leaves a store in order, also one that fails. -/
theorem InOrder.after (h : InOrder text sa width mode s) (call : Event Kind) :
    InOrder text sa width mode (manager.after s call) where
  setup := h.setup.after hn hsa call
  tidied := by
    rcases h.carried_or_same hn hsa call with hcarried | hsame
    · exact hcarried.tidied h.tidied
    · rw [hsame]
      exact h.tidied
  booked := (h.setup.good.after_posts hn hsa h.booked call).booked

/-- After any calls of a planner a store is in order. -/
theorem InOrder.afterAll (h : InOrder text sa width mode s) (calls : List (Event Kind)) :
    InOrder text sa width mode (manager.afterAll s calls) := by
  induction calls generalizing s with
  | nil => exact h
  | cons call calls ih => exact ih (h.after hn hsa call)

end Calls

/-- A new run keeps a store in order. -/
theorem InOrder.beginRun (h : InOrder text sa width mode s) : InOrder text sa width mode s.beginRun where
  setup := h.setup.beginRun
  tidied := by
    intro k v hv
    rw [get?_beginRun] at hv
    exact h.tidied k v hv
  booked := h.booked.beginRun.booked

/-- Resetting the peak keeps a store in order. -/
theorem InOrder.resetPeak (h : InOrder text sa width mode s) :
    InOrder text sa width mode s.resetPeak where
  setup := ⟨⟨h.setup.good.text_eq, h.setup.good.slots⟩, h.setup.width_eq, h.setup.mode_eq⟩
  tidied := h.tidied
  booked := h.booked.resetPeak

end TextIndex.Store
