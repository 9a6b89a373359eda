import TextIndex.Proofs.Plan.Aftermath
import TextIndex.Proofs.Store.Bookkeeping

/-!
# The marks and the widths of a store, call by call

What a call does to the marks of a slot and to the width of its structure.

* A kind is registered by making it ready, and by nothing else (`manager_registers`).
* A structure is loose that is not marked as compressed. Only a structure that comes into the store can
  be loose when it was not before, and compressing ends it (`manager_tightens`).
* Where nothing is built compressed and nothing compressed afterwards, all structures have their full
  width and no mark is set (`plain_after`). The permuted prefix array takes the width of the phi array in
  whose storage it is built, which is why the widths of all slots have to be looked at together.
-/

set_option autoImplicit false

namespace TextIndex

namespace Store

variable {s t : Store} {j k : Kind} {text : SentinelText} {sa : List Nat} {width : Width} {mode : Mode}

/-! ## Reading marks -/

/-- Putting a structure into its slot marks it as there, and as compressed or not. -/
@[simp] theorem flags_put (s : Store) (k j : Kind) (v : PackedVector) (compressed : Bool) :
    (s.put k v compressed).flags j =
      if j = k then { s.flags k with live := true, compressed } else s.flags j := by
  unfold put
  rw [flags_refresh, flags_updateSlot]
  rfl

/-- Taking a structure out removes the two marks that tell of it. -/
@[simp] theorem flags_remove (s : Store) (k j : Kind) :
    (s.remove k).flags j =
      if j = k then { s.flags k with live := false, compressed := false } else s.flags j := by
  unfold remove
  rw [flags_refresh, flags_updateSlot]
  rfl

/-- A new run forgets what was shared, and keeps all other marks. -/
theorem flags_beginRun (s : Store) (k : Kind) :
    s.beginRun.flags k = { s.flags k with shared := false } := by
  unfold beginRun Kind.all
  simp only [List.foldl_cons, List.foldl_nil, flags_updateFlags]
  cases k <;> simp

/-! ## Registered kinds -/

/-- The store marks a kind as registered when it is made ready, and never takes this back. -/
theorem manager_registers : manager.Registers fun s k => (s.flags k).registered = true where
  ensure k s j := by
    show ((s.updateFlags k fun f => { f with registered := true }).flags j).registered = true ↔ _
    rw [flags_updateFlags]
    split <;> simp [*]
  other call s j haction := by
    suffices heq : ((manager.after s call).flags j).registered = (s.flags j).registered by rw [heq]
    have hupdate : ∀ (t : Store) k (f : Slot → Slot),
        (f (t.slot k)).flags.registered = (t.flags k).registered →
        (t.flags j).registered = (s.flags j).registered →
        ((t.updateSlot k f).refresh.flags j).registered = (s.flags j).registered := by
      intro t k f hf ht
      rw [flags_refresh, flags_updateSlot]
      split
      · next heq => rw [hf, ← heq, ht]
      · exact ht
    cases call with
    | ensure k => exact absurd rfl haction
    | construct k compressed =>
      exact Manager.reached_of_ends (changes_construct (fun t k _ _ => hupdate t k _ rfl)
        (fun t k => hupdate t k _ rfl) (fun t k _ => hupdate t k _ rfl) rfl k compressed)
    | discard k intermediate => exact hupdate s k _ rfl rfl
    | protect k =>
      exact hupdate s k (fun slot => { slot with flags := { slot.flags with shared := true } }) rfl rfl
    | unprotect k =>
      exact hupdate s k (fun slot => { slot with flags := { slot.flags with shared := false } }) rfl rfl
    | compress k =>
      exact Manager.reached_of_ends (changes_compress (fun t k _ => hupdate t k _ rfl) rfl k)

/-! ## Loose structures -/

/-- The structure is there and not marked as compressed. -/
def Loose (s : Store) (k : Kind) : Prop := (s.get? k).isSome ∧ (s.flags k).compressed = false

/-- A change of marks that is not about compression makes nothing loose. -/
theorem Loose.of_updateFlags {f : SlotFlags → SlotFlags}
    (hf : (f (s.flags k)).compressed = (s.flags k).compressed)
    (h : (s.updateFlags k f).Loose j) : s.Loose j := by
  obtain ⟨hthere, hmark⟩ := h
  rw [get?_updateFlags] at hthere
  rw [flags_updateFlags] at hmark
  refine ⟨hthere, ?_⟩
  split at hmark
  · next heq => rw [heq, ← hf, hmark]
  · exact hmark

/-- Taking a structure out makes nothing loose. -/
theorem Loose.of_remove (h : (s.remove k).Loose j) : s.Loose j := by
  obtain ⟨hthere, hmark⟩ := h
  rw [get?_remove] at hthere
  rw [flags_remove] at hmark
  split at hthere
  · cases hthere
  · next hne =>
    rw [if_neg hne] at hmark
    exact ⟨hthere, hmark⟩

/-- What is put into the store is loose if it is not compressed. -/
theorem Loose.of_put {v : PackedVector} {compressed : Bool} (h : (s.put k v compressed).Loose j) :
    (j = k ∧ compressed = false) ∨ s.Loose j := by
  obtain ⟨hthere, hmark⟩ := h
  rw [get?_put] at hthere
  rw [flags_put] at hmark
  split at hthere
  · next heq =>
    rw [if_pos heq] at hmark
    exact Or.inl ⟨heq, hmark⟩
  · next hne =>
    rw [if_neg hne] at hmark
    exact Or.inr ⟨hthere, hmark⟩

/-- Building a kind makes loose at most what it puts there uncompressed. -/
theorem Loose.of_built {compressed : Bool} (hk : s.get? k = none)
    (ht : Built text sa compressed s k t) (h : t.Loose j) :
    s.Loose j ∨ (compressed = false ∧ s.get? j = none) := by
  cases ht with
  | stored _ =>
    rcases h.of_put with ⟨rfl, hflag⟩ | hold
    · exact Or.inr ⟨hflag, hk⟩
    · exact Or.inl hold
  | withInverse _ _ hempty =>
    rcases h.of_put with ⟨rfl, hflag⟩ | hold
    · exact Or.inr ⟨hflag, hempty⟩
    · rcases hold.of_put with ⟨rfl, hflag⟩ | hold
      · exact Or.inr ⟨hflag, hk⟩
      · exact Or.inl hold
  | inPlace _ _ =>
    rcases h.of_put with ⟨rfl, hflag⟩ | hold
    · exact Or.inr ⟨hflag, hk⟩
    · exact Or.inl hold.of_remove

/-- What has been compressed is not loose, and nothing else has become so. -/
theorem Compressed.loose (ht : Compressed text sa s k t) (h : t.Loose j) : s.Loose j ∧ j ≠ k := by
  cases ht with
  | marked hmarked =>
    refine ⟨h, ?_⟩
    rintro rfl
    rw [h.2] at hmarked
    cases hmarked
  | replaced _ _ =>
    obtain ⟨hthere, hmark⟩ := h
    rw [get?_refresh, get?_updateSlot] at hthere
    rw [flags_refresh, flags_updateSlot] at hmark
    split at hmark
    · cases hmark
    · next hne =>
      rw [if_neg hne] at hthere
      exact ⟨⟨hthere, hmark⟩, hne⟩

section Tightens

variable (hn : Measurable text.size) (hsa : Sorts (SuffixArray.codes text.bytes) sa)

include hn hsa

/-- A call to build finds the kind there, and compresses it at most, or it builds the kind. -/
theorem Setup.construct_ends (h : Setup text sa width mode s) (k : Kind) (compressed : Bool) :
    Ends (Store.construct k compressed) s
      (fun _ t => t = s ∨ Compressed text sa s k t ∨
        s.get? k = none ∧ Built text sa compressed s k t) fun _ _ => True := by
  rw [ends_construct]
  refine ⟨fun _ => ⟨fun _ => ?_, fun _ => Or.inl rfl⟩, fun hk => ?_⟩
  · exact (h.good.compress_ends hn hsa k).mono (fun _ _ ht => Or.inr (Or.inl ht)) fun _ _ _ => trivial
  · have hnone := h.good.get?_eq_none hk
    exact (h.good.build_ends hn hsa k compressed).mono
      (fun _ _ ht => Or.inr (Or.inr ⟨hnone, ht⟩)) fun _ _ _ => trivial

/-- Only a call that builds uncompressed makes a structure loose, and one that compresses ends this. -/
theorem manager_tightens (compressed : Bool) :
    manager.Tightens compressed (Setup text sa width mode) get? Loose where
  there _ _ h := h.1
  construct k s t j h hok hloose := by
    rcases (h.construct_ends hn hsa k compressed).of_ok hok with rfl | ht | ⟨hnone, ht⟩
    · exact Or.inl hloose
    · exact Or.inl (ht.loose hloose).1
    · exact hloose.of_built hnone ht
  compress k s t h hok hloose :=
    (((h.good.compress_ends hn hsa k).of_ok hok).loose hloose).2 rfl
  other call s j h haction hloose := by
    cases call with
    | ensure k => exact Loose.of_updateFlags (f := fun f => { f with registered := true }) rfl hloose
    | construct k compressed => exact absurd rfl haction
    | discard k intermediate => exact hloose.of_remove
    | protect k => exact Loose.of_updateFlags (f := fun f => { f with shared := true }) rfl hloose
    | unprotect k => exact Loose.of_updateFlags (f := fun f => { f with shared := false }) rfl hloose
    | compress k =>
      have hcompress : Ends (Store.compress k) s (fun _ t => t.Loose j → s.Loose j)
          fun _ t => t.Loose j → s.Loose j :=
        (h.good.compress_ends hn hsa k).mono (fun _ _ ht hj => (ht.loose hj).1) fun _ _ heq => heq ▸ id
      exact Manager.reached_of_ends hcompress hloose

end Tightens

/-! ## Full widths -/

/-- The width of a structure that is built uncompressed. -/
def fullWidth (s : Store) (k : Kind) : Width := if k = .bwt then .byte else s.width

/-- No structure is compressed, and each has its full width. -/
structure Plain (s : Store) : Prop where
  unmarked : ∀ k, (s.flags k).compressed = false
  width_eq : ∀ k v, s.get? k = some v → v.width = s.fullWidth k

/-- A new store is plain. -/
theorem plain_new (text : SentinelText) (width : Width) (mode : Mode) :
    Plain (new text width mode) where
  unmarked k := by
    unfold flags slot new
    simp
  width_eq k v hv := by
    unfold get? slot new at hv
    simp at hv

/-- Putting a structure of full width into its slot keeps a store plain. -/
theorem Plain.put (h : Plain s) {v : PackedVector} (hv : v.width = s.fullWidth k) :
    Plain (s.put k v false) where
  unmarked j := by
    rw [flags_put]
    split
    · rfl
    · exact h.unmarked j
  width_eq j u hu := by
    rw [get?_put] at hu
    split at hu
    · next heq =>
      injection hu with hu
      rw [heq, ← hu]
      exact hv
    · exact h.width_eq j u hu

/-- Taking a structure out keeps a store plain. -/
theorem Plain.remove (h : Plain s) (k : Kind) : Plain (s.remove k) where
  unmarked j := by
    rw [flags_remove]
    split
    · rfl
    · exact h.unmarked j
  width_eq j u hu := by
    rw [get?_remove] at hu
    split at hu
    · cases hu
    · exact h.width_eq j u hu

/-- A change of marks that is not about compression keeps a store plain. -/
theorem Plain.updateFlags (h : Plain s) {f : SlotFlags → SlotFlags}
    (hf : (f (s.flags k)).compressed = (s.flags k).compressed) : Plain (s.updateFlags k f) where
  unmarked j := by
    rw [flags_updateFlags]
    split
    · rw [hf]
      exact h.unmarked k
    · exact h.unmarked j
  width_eq j u hu := by
    rw [get?_updateFlags] at hu
    exact h.width_eq j u hu

/-- What is computed to be stored uncompressed has its full width, or that of the phi array. -/
theorem Computed.width_eq {v : PackedVector} (hv : Computed s false k j v) :
    (j ≠ .plcp ∧ v.width = s.fullWidth j) ∨
      (j = .plcp ∧ ∃ phi, s.get? .phi = some phi ∧ v.width = phi.width) := by
  cases hv with
  | positions hpair => exact Or.inl ⟨by decide, (width_build hpair).1⟩
  | ranks hpair => exact Or.inl ⟨by decide, (width_build hpair).2⟩
  | inverse _ hv => exact Or.inl ⟨by decide, width_invert hv⟩
  | phi _ hv => exact Or.inl ⟨by decide, width_phi hv⟩
  | @plcp phi v hphi hv =>
    refine Or.inr ⟨rfl, phi, hphi, ?_⟩
    show v.width = _
    rw [width_plcp hv]
    split <;> rfl
  | lcp _ _ hv => exact Or.inl ⟨by decide, width_lcp hv⟩
  | bwt _ hv => exact Or.inl ⟨by decide, width_transform hv⟩

/-- In a plain store everything is computed at full width. -/
theorem Plain.width_of_computed (h : Plain s) {v : PackedVector} (hv : Computed s false k j v) :
    v.width = s.fullWidth j := by
  rcases hv.width_eq with ⟨-, hwidth⟩ | ⟨rfl, phi, hphi, hwidth⟩
  · exact hwidth
  · exact hwidth.trans (h.width_eq .phi phi hphi)

/-- Building uncompressed keeps a store plain. -/
theorem Plain.build (h : Plain s) (k : Kind) :
    Ends (Store.build k false) s (fun _ t => Plain t) fun _ t => Plain t := by
  apply (build_spec s k false).mono
  · intro _ t ht
    cases ht with
    | stored hv _ _ => exact h.put (h.width_of_computed hv)
    | withInverse hv hu _ => exact (h.put (h.width_of_computed hv)).put (h.width_of_computed hu)
    | inPlace hv _ _ => exact (h.remove .phi).put (h.width_of_computed hv)
  · rintro _ t (rfl | ⟨rfl, -⟩)
    · exact h
    · exact h.remove .phi

/-- The calls of a run in plain mode keep a store plain. -/
theorem plain_after (call : Event Kind) (s : Store) (hcall : call.InMode .plain) (h : Plain s) :
    Plain (manager.after s call) := by
  cases call with
  | ensure k => exact h.updateFlags (f := fun f => { f with registered := true }) rfl
  | construct k compressed =>
    obtain rfl : compressed = false := hcall
    apply Manager.reached_of_ends
    show Ends (Store.construct k false) s _ _
    rw [ends_construct]
    exact ⟨fun _ => ⟨fun hno => (by cases hno), fun _ => h⟩, fun _ => h.build k⟩
  | discard k intermediate => exact h.remove k
  | protect k => exact h.updateFlags (f := fun f => { f with shared := true }) rfl
  | unprotect k => exact h.updateFlags (f := fun f => { f with shared := false }) rfl
  | compress k => cases hcall

end Store

end TextIndex
