import TextIndex.Proofs.Store.Zeroed

/-!
# Words that are reserved and not used

Most structures reserve the words that they use. Zeros are the exception: they reserve four words even if
they use fewer, and what is filled into them keeps these. The permuted prefix array takes over the storage
of a phi array, and with it the words that this one does not use. There is no other way to come by such words
(`Frugal`), whatever calls a store receives and whichever of them it refuses.

Taking a copy gives them back, as does bringing a structure to its least width.
-/

set_option autoImplicit false

namespace TextIndex

/-- Words that are reserved and not used. -/
def Buffer.idle (b : Buffer) : Nat := b.capacity - b.size

/-- The structure is filled into zeros, or into what was filled into zeros. -/
def Kind.roomy : Kind → Bool
  | inverse | phi | plcp | lcp => true
  | suffixArray | bwt => false

namespace Store

variable {s t : Store} {j k : Kind} {text : SentinelText} {sa : List Nat} {width : Width} {mode : Mode}
  {v : PackedVector} {compressed : Bool} {call : Event Kind}

/-- So many words are reserved for a structure of this kind and width. -/
def Reserved (text : SentinelText) (k : Kind) (w : Width) (capacity : Nat) : Prop :=
  capacity = w.wordsFor text.size ∨ k.roomy = true ∧ capacity = max 4 (w.wordsFor text.size)

/-- No structure reserves more words than it needs, or than zeros do. -/
def Frugal (text : SentinelText) (s : Store) : Prop :=
  ∀ k v, s.get? k = some v → Reserved text k v.width v.buffer.capacity

/-! ## Single calls -/

/-- What is built in the storage of the phi array has its width, so what was not used is not used. -/
theorem New.reserved_plcp (h : Frugal text s) (htext : s.text = text)
    (hv : New text sa s .plcp compressed .plcp v) (hsource : (s.get? .phi).isSome) :
    Reserved text .plcp v.width v.buffer.capacity := by
  have hcapacity := hv.reserves.capacity_eq
  by_cases hcut : compressed = true ∨ (s.flags .phi).shared = true
  · rw [reservation_of_cut hcut, htext] at hcapacity
    exact Or.inl hcapacity
  · obtain ⟨huncompressed, hfree⟩ := not_or.1 hcut
    rw [Bool.not_eq_true] at huncompressed hfree
    subst huncompressed
    obtain ⟨phi, hphi⟩ := Option.isSome_iff_exists.1 hsource
    rw [reservation_inPlace hfree hphi] at hcapacity
    rw [hcapacity, hv.width_eq rfl, buildWidth_plcp hphi]
    exact h .phi phi hphi

/-- A structure that is new reserves what its kind reserves. -/
theorem New.reserved (h : Frugal text s) (htext : s.text = text) (hv : New text sa s k compressed j v)
    (hj : j = k ∨ k = .suffixArray ∧ j = .inverse) (hsource : k = .plcp → (s.get? .phi).isSome) :
    Reserved text j v.width v.buffer.capacity := by
  have hcapacity := hv.reserves.capacity_eq
  rcases hj with rfl | ⟨rfl, rfl⟩
  · cases j with
    | suffixArray | bwt =>
      rw [← htext]
      exact Or.inl hcapacity
    | inverse | phi | lcp =>
      rw [← htext]
      exact Or.inr ⟨rfl, hcapacity⟩
    | plcp => exact hv.reserved_plcp h htext (hsource rfl)
  · rw [← htext]
    exact Or.inl hcapacity

/-- A call that is carried out leaves a frugal store frugal. -/
theorem Carried.frugal (h : Frugal text s) (htext : s.text = text) (ht : Carried text sa s call t) :
    Frugal text t := by
  intro j v hv
  cases ht with
  | ensure k | protect k | unprotect k =>
    rw [get?_updateFlags] at hv
    exact h j v hv
  | discard k intermediate => exact h j v (get?_of_remove hv)
  | used _ => exact h j v hv
  | compress ht | reduced _ ht =>
    rcases ht.old_or_shrunk j v hv with ⟨hold, -⟩ | ⟨-, -, hreserves⟩
    · exact h j v hold
    · rw [htext] at hreserves
      exact Or.inl hreserves.capacity_eq
  | raised _ ht =>
    rcases ht.old_or_new j v hv with hold | ⟨hempty, hnew⟩
    · exact h j v hold
    · exact hnew.reserved h htext (ht.kind_of_new hv hempty) ht.source

/-- Every call leaves a store frugal, also one that fails. -/
theorem Frugal.after (hn : Measurable text.size) (hsa : Sorts (SuffixArray.codes text.bytes) sa)
    (h : Frugal text s) (hs : InOrder text sa width mode s) (call : Event Kind) :
    Frugal text (manager.after s call) := by
  rcases hs.carried_or_same hn hsa call with hcarried | hsame
  · exact hcarried.frugal h hs.setup.good.text_eq
  · rw [hsame]
    exact h

/-- A new run leaves a frugal store frugal. -/
theorem Frugal.beginRun (h : Frugal text s) : Frugal text s.beginRun := by
  intro k v hv
  rw [get?_beginRun] at hv
  exact h k v hv

/-! ## What a structure does not use -/

/-- Where words are idle, four are reserved and fewer are used. -/
theorem Frugal.used_or_four (hn : Measurable text.size) (h : Frugal text s)
    (hs : InOrder text sa width mode s) (hv : s.get? k = some v) :
    v.buffer.capacity = v.buffer.size ∨
      k.roomy = true ∧ v.buffer.capacity = 4 ∧ v.buffer.size < 4 := by
  have hlength : v.length = text.size := by
    rw [hs.setup.good.length_eq hv, hs.setup.good.text_eq]
  have hsize : v.buffer.size = v.width.wordsFor text.size := by
    rw [← hlength]
    exact (hs.tidied k v hv).size_eq_wordsFor (hlength ▸ hn.measures _)
  rw [hsize]
  rcases h k v hv with hneeded | ⟨hroomy, hzeros⟩
  · exact Or.inl hneeded
  · rcases Nat.lt_or_ge (v.width.wordsFor text.size) 4 with hlt | hge
    · exact Or.inr ⟨hroomy, hzeros.trans (max_eq_left hlt.le), hlt⟩
    · exact Or.inl (hzeros.trans (max_eq_right hge))

/-! ## Copies -/

/-- A store is copied slot by slot. -/
theorem slot_copy (s : Store) (k : Kind) : s.copy.slot k = (s.slot k).copy := by
  unfold copy slot
  simp

/-- The words that the structure of a kind reserves and does not use. -/
def idle (s : Store) (k : Kind) : Nat := (s.get? k).elim 0 fun v => v.buffer.idle

/-- The copy of a structure does without the idle words. -/
theorem heapBytes_slot_copy (s : Store) (k : Kind) :
    (s.copy.slot k).heapBytes + 8 * s.idle k = (s.slot k).heapBytes := by
  rw [slot_copy]
  unfold idle get? Slot.copy Slot.heapBytes
  cases (s.slot k).data with
  | none => rfl
  | some v =>
    have hle : v.buffer.size ≤ v.buffer.capacity := v.buffer.size_le
    show 8 * v.buffer.size + 8 * (v.buffer.capacity - v.buffer.size) = 8 * v.buffer.capacity
    omega

/-- A copy has the bytes of the original but for the idle words. -/
theorem heapBytes_copy (s : Store) : s.copy.heapBytes + 8 * (Kind.all.map s.idle).sum = s.heapBytes := by
  rw [heapBytes_add, heapBytes_eq_sum]
  exact congrArg List.sum (List.map_congr_left fun k _ => heapBytes_slot_copy s k)

/-- No words are idle exactly when each structure reserves what it uses. -/
theorem sum_idle_eq_zero_iff (s : Store) : (Kind.all.map s.idle).sum = 0 ↔
    ∀ k v, s.get? k = some v → v.buffer.capacity = v.buffer.size := by
  rw [List.sum_eq_zero_iff, List.forall_mem_map]
  constructor
  · intro hnone k v hv
    have hidle : v.buffer.capacity - v.buffer.size = 0 := by
      have hslot := hnone k (Kind.mem_all k)
      unfold idle at hslot
      rwa [hv] at hslot
    exact Nat.le_antisymm (Nat.sub_eq_zero_iff_le.1 hidle) v.buffer.size_le
  · intro hused k _
    unfold idle
    cases hv : s.get? k with
    | none => rfl
    | some v =>
      show v.buffer.capacity - v.buffer.size = 0
      rw [hused k v hv, Nat.sub_self]

end Store

end TextIndex
