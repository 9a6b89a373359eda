import TextIndex.Proofs.Store.Slots

/-!
# What building a kind comes to

Building goes a different way for each kind. `build_spec` says once what it does: which structures are
computed, from what and by which function (`Computed`), and where they are put (`Placed`). Whatever else
is to be known about building, such as whether a structure is right, how wide it is or how much room it
takes, is read off from there, kind by kind for what is computed and slot by slot for what is put.

A failure leaves the store as it was, except that the phi array may have been taken out to build the
permuted prefix array in its storage (`Abandoned`).

A kind that is there is not built again, and compressing one replaces its structure (`ends_construct`,
`ends_compress`).
-/

set_option autoImplicit false

namespace TextIndex.Store

variable {s t : Store} {j k : Kind} {compressed : Bool} {v : PackedVector}

/-- The structure of the kind `j` has been computed to build `k`. -/
inductive Computed (s : Store) (compressed : Bool) : Kind → Kind → PackedVector → Prop where
  | positions {pair : SuffixArray.Pair}
    (h : SuffixArray.build s.text.bytes (s.positionWidth compressed) = .ok pair) :
    Computed s compressed .suffixArray .suffixArray pair.positions
  /-- The suffix array comes with its inverse. -/
  | ranks {pair : SuffixArray.Pair}
    (h : SuffixArray.build s.text.bytes (s.positionWidth compressed) = .ok pair) :
    Computed s compressed .suffixArray .inverse pair.ranks
  | inverse {positions v : PackedVector} (hsa : s.get? .suffixArray = some positions)
    (h : SuffixArray.invert positions (s.positionWidth compressed) = .ok v) :
    Computed s compressed .inverse .inverse v
  | phi {positions v : PackedVector} (hsa : s.get? .suffixArray = some positions)
    (h : CommonPrefix.phi positions (s.positionWidth compressed) = .ok v) :
    Computed s compressed .phi .phi v
  /-- The permuted prefix array is built in the storage of the phi array, or of a copy of it. -/
  | plcp {phi v : PackedVector} (hphi : s.get? .phi = some phi)
    (h : CommonPrefix.plcp s.text.bytes (if (s.flags .phi).shared then phi.copy else phi) = .ok v) :
    Computed s compressed .plcp .plcp (if compressed then v.bitCompress else v)
  | lcp {positions plcp v : PackedVector} (hplcp : s.get? .plcp = some plcp)
    (hsa : s.get? .suffixArray = some positions)
    (h : CommonPrefix.lcp positions plcp (if compressed then .least plcp.maxValue else s.width) = .ok v) :
    Computed s compressed .lcp .lcp v
  | bwt {positions v : PackedVector} (hsa : s.get? .suffixArray = some positions)
    (h : Transform.build s.text.bytes positions
      (if compressed then .least s.largestByte.toUInt64 else .byte) = .ok v) :
    Computed s compressed .bwt .bwt v

/-- Structures with the property `P` have been put where building a kind puts them. -/
inductive Placed (s : Store) (compressed : Bool) (P : Kind → PackedVector → Prop) : Kind → Store → Prop where
  /-- The structure is put into its slot. -/
  | stored {k : Kind} {v : PackedVector} (hv : P k v)
    (hinverse : k = .suffixArray → s.isLive .inverse = true)
    (hphi : k = .plcp → (s.get? .phi).isSome ∧ (s.flags .phi).shared = true) :
    Placed s compressed P k (s.put k v compressed)
  /-- The inverse comes with the suffix array, unless it is there. -/
  | withInverse {v u : PackedVector} (hv : P .suffixArray v) (hu : P .inverse u)
    (hempty : s.isLive .inverse = false) :
    Placed s compressed P .suffixArray ((s.put .suffixArray v compressed).put .inverse u compressed)
  /-- The permuted prefix array takes the storage of the phi array, unless that is shared. -/
  | inPlace {v : PackedVector} (hv : P .plcp v) (hphi : (s.get? .phi).isSome)
    (hfree : (s.flags .phi).shared = false) :
    Placed s compressed P .plcp ((s.remove .phi).put .plcp v compressed)

/-- What is placed satisfies whatever follows from what it satisfies. -/
theorem Placed.mono {P Q : Kind → PackedVector → Prop} (h : Placed s compressed P k t)
    (hPQ : ∀ j v, P j v → Q j v) : Placed s compressed Q k t := by
  cases h with
  | stored hv hinverse hphi => exact .stored (hPQ _ _ hv) hinverse hphi
  | withInverse hv hu hempty => exact .withInverse (hPQ _ _ hv) (hPQ _ _ hu) hempty
  | inPlace hv hphi hfree => exact .inPlace (hPQ _ _ hv) hphi hfree

/-- Most kinds change their own slot alone. -/
theorem placed_alone {P : Kind → PackedVector → Prop} (hv : P k v) (hsa : k ≠ .suffixArray)
    (hplcp : k ≠ .plcp) : Placed s compressed P k (s.put k v compressed) :=
  .stored hv (fun heq => absurd heq hsa) fun heq => absurd heq hplcp

/-- The store is as it was, except that a phi array out of which no permuted prefix array can be made has
been taken out. -/
def Abandoned (s t : Store) : Prop :=
  t = s ∨ t = s.remove .phi ∧
    ∀ phi v, s.get? .phi = some phi → CommonPrefix.plcp s.text.bytes phi ≠ .ok v

/-- Putting a structure into its slot marks no other kind. -/
theorem isLive_put (hjk : j ≠ k) : (s.put k v compressed).isLive j = s.isLive j := by
  unfold put isLive
  rw [flags_refresh, flags_updateSlot, if_neg hjk]

/-- The phi array is taken out of its slot, or copied if it is shared. -/
theorem phiStorage_spec (s : Store) :
    Ends phiStorage s
      (fun v t => ∃ phi, s.get? .phi = some phi ∧
        (((s.flags .phi).shared = true ∧ v = phi.copy ∧ t = s) ∨
          ((s.flags .phi).shared = false ∧ v = phi ∧ t = s.remove .phi)))
      fun _ t => s.get? .phi = none ∧ (t = s ∨ t = s.remove .phi) := by
  unfold phiStorage
  simp only [ends_bind, ends_get, ends_ite, ends_demand, ends_demandOwned, ends_pure, Bool.not_eq_true]
  refine ⟨fun hshared => ⟨fun v hv => ?_, fun hnone => ⟨hnone, Or.inl trivial⟩⟩,
    fun hfree => ⟨fun v hv => ?_, fun hnone => ⟨hnone, Or.inr trivial⟩⟩⟩
  · exact ⟨v, hv, Or.inl ⟨hshared, rfl, trivial⟩⟩
  · exact ⟨v, hv, Or.inr ⟨hfree, rfl, trivial⟩⟩

/-- What building a kind does, whether or not it fails. -/
theorem build_spec (s : Store) (k : Kind) (compressed : Bool) :
    Ends (build k compressed) s (fun _ t => Placed s compressed (Computed s compressed k) k t)
      fun _ t => Abandoned s t := by
  have hsame : Abandoned s s := Or.inl rfl
  unfold build
  rw [ends_bind, ends_get]
  cases k with
  | suffixArray =>
    simp only [ends_bind, ends_get, ends_ofVector, ends_modify, ends_ite, ends_pure,
      isLive_put (show Kind.inverse ≠ .suffixArray by decide), Bool.not_eq_true, Bool.not_eq_false]
    refine ⟨fun pair hpair => ⟨fun hempty => ?_, fun hthere => ?_⟩, fun _ _ => hsame⟩
    · exact .withInverse (.positions hpair) (.ranks hpair) hempty
    · exact .stored (.positions hpair) (fun _ => hthere) fun hno => by cases hno
  | inverse =>
    simp only [ends_bind, ends_demand, ends_ofVector, ends_modify]
    exact ⟨fun _ hv => ⟨fun _ hv' => placed_alone (.inverse hv hv') (by decide) (by decide),
      fun _ _ => hsame⟩, fun _ => hsame⟩
  | phi =>
    simp only [ends_bind, ends_demand, ends_ofVector, ends_modify]
    exact ⟨fun _ hv => ⟨fun _ hv' => placed_alone (.phi hv hv') (by decide) (by decide),
      fun _ _ => hsame⟩, fun _ => hsame⟩
  | plcp =>
    simp only [ends_bind, ends_ofVector, ends_modify]
    refine (phiStorage_spec s).mono ?_ ?_
    · rintro _ _ ⟨phi, hphi, ⟨hshared, rfl, rfl⟩ | ⟨hfree, rfl, rfl⟩⟩
      · refine ⟨fun v hv => ?_, fun _ _ => hsame⟩
        exact .stored (.plcp hphi (by rwa [if_pos hshared])) (fun hno => by cases hno)
          fun _ => ⟨Option.isSome_of_eq_some hphi, hshared⟩
      · refine ⟨fun v hv => ?_, fun e he => Or.inr ⟨rfl, fun phi' v hphi' hv => ?_⟩⟩
        · exact .inPlace (.plcp hphi (by rwa [hfree])) (Option.isSome_of_eq_some hphi) hfree
        · cases hphi.symm.trans hphi'
          cases he.symm.trans hv
    · rintro _ _ ⟨hnone, rfl | rfl⟩
      · exact hsame
      · exact Or.inr ⟨rfl, fun phi v hphi => by cases hnone.symm.trans hphi⟩
  | lcp =>
    simp only [ends_bind, ends_demand, ends_ofVector, ends_modify]
    exact ⟨fun _ hplcp => ⟨fun _ hv => ⟨fun _ hv' =>
      placed_alone (.lcp hplcp hv hv') (by decide) (by decide), fun _ _ => hsame⟩, fun _ => hsame⟩,
      fun _ => hsame⟩
  | bwt =>
    simp only [ends_bind, ends_demand, ends_ofVector, ends_modify]
    exact ⟨fun _ hv => ⟨fun _ hv' => placed_alone (.bwt hv hv') (by decide) (by decide),
      fun _ _ => hsame⟩, fun _ => hsame⟩

/-! ## Kinds that are there -/

section Ends

variable {Q : Unit → Store → Prop} {F : IndexError → Store → Prop}

/-- A structure is brought to its least width, if it is not marked. -/
theorem ends_compress : Ends (compress k) s Q F ↔
    ((s.flags k).compressed = false →
      (∀ v, s.get? k = some v →
        (∀ v', s.shrunk k v = .ok v' →
          Q () (s.updateSlot k fun slot => ⟨{ slot.flags with compressed := true }, some v'⟩).refresh) ∧
        ∀ e, s.shrunk k v = .error e → F (.storage e) s) ∧
      (s.get? k = none → F (.missing k) s)) ∧
    ((s.flags k).compressed = true → Q () s) := by
  unfold compress
  simp only [ends_bind, ends_get, ends_ite, ends_demand, ends_ofVector, ends_modify, ends_pure,
    Bool.not_eq_true, Bool.not_eq_false]

/-- A kind is built, or compressed if it is there and to be compressed. -/
theorem ends_construct : Ends (construct k compressed) s Q F ↔
    (s.isLive k = true →
      (compressed = true → Ends (compress k) s Q F) ∧ (compressed = false → Q () s)) ∧
    (s.isLive k = false → Ends (build k compressed) s Q F) := by
  unfold construct
  simp only [ends_bind, ends_get, ends_ite, ends_pure, Bool.not_eq_true]

end Ends

end TextIndex.Store
