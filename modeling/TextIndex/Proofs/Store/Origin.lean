import TextIndex.Proofs.Store.Marks

/-!
# Where structures come from

What is there after a call of a run in plain mode was there before, with the same mark, or has been
built by the call and is not marked (`Origin`). The width of what has been built is the full one, except
that the permuted prefix array has that of the phi array it is built from (`buildWidth`).

Steps of this sort can be put together as long as nothing is lost on the way that was there at first
(`Origins.trans`): then the phi array that a permuted prefix array is built from is the one from the start,
or it has been built since and has its full width. So a whole run is a step of this sort as well.
-/

set_option autoImplicit false

namespace TextIndex.Store

variable {s t u : Store} {j k : Kind} {text : SentinelText} {sa : List Nat} {width : Width}

/-- The width in which a kind is built uncompressed from what is in the store. -/
def buildWidth (s : Store) (k : Kind) : Width :=
  if k = .plcp then (s.get? .phi).elim s.width PackedVector.width else s.fullWidth k

/-- The permuted prefix array takes its width from the phi array. -/
theorem buildWidth_plcp {v : PackedVector} (hv : s.get? .phi = some v) :
    s.buildWidth .plcp = v.width := by
  unfold buildWidth
  rw [if_pos rfl, hv]
  rfl

/-- How a structure has come to be in `t`, when `s` was the store before. -/
inductive Origin (s t : Store) (k : Kind) (v : PackedVector) : Prop where
  /-- It was there. -/
  | kept (hthere : s.get? k = some v) (hmark : (t.flags k).compressed = (s.flags k).compressed)
  /-- It has been built, and not compressed. -/
  | built (hnew : s.get? k = none) (hmark : (t.flags k).compressed = false)
    (hwidth : v.width = s.buildWidth k)

/-- What is in `t` was there in `s` or has been built since. -/
def Origins (s t : Store) : Prop := ∀ k v, t.get? k = some v → Origin s t k v

/-- Where nothing is done everything is kept. -/
theorem origins_refl (s : Store) : Origins s s := fun _ _ hv => .kept hv rfl

/-! ## Single steps -/

/-- A new structure of the right width is one that was built. -/
theorem Origins.put (h : Origins s t) {v : PackedVector} (hnew : s.get? k = none)
    (hwidth : v.width = s.buildWidth k) : Origins s (t.put k v false) := by
  intro j u hu
  rw [get?_put] at hu
  split at hu
  · next heq =>
    injection hu with hu
    subst heq hu
    exact .built hnew (by rw [flags_put, if_pos rfl]) hwidth
  · next hne =>
    have hflags : (t.put k v false).flags j = t.flags j := by rw [flags_put, if_neg hne]
    cases h j u hu with
    | kept hthere hmark => exact .kept hthere (by rw [hflags, hmark])
    | built hnew hmark hwidth => exact .built hnew (by rw [hflags, hmark]) hwidth

/-- Taking a structure out leaves the origins of the others. -/
theorem Origins.remove (h : Origins s t) (k : Kind) : Origins s (t.remove k) := by
  intro j u hu
  rw [get?_remove] at hu
  split at hu
  · cases hu
  · next hne =>
    have hflags : (t.remove k).flags j = t.flags j := by rw [flags_remove, if_neg hne]
    cases h j u hu with
    | kept hthere hmark => exact .kept hthere (by rw [hflags, hmark])
    | built hnew hmark hwidth => exact .built hnew (by rw [hflags, hmark]) hwidth

/-- A change of marks that is not about compression leaves all origins. -/
theorem origins_updateFlags {f : SlotFlags → SlotFlags}
    (hf : (f (s.flags k)).compressed = (s.flags k).compressed) : Origins s (s.updateFlags k f) := by
  intro j u hu
  rw [get?_updateFlags] at hu
  apply Origin.kept hu
  rw [flags_updateFlags]
  split
  · next heq => rw [heq, hf]
  · rfl

/-- What is computed uncompressed has the width at which its kind is built. -/
theorem Computed.buildWidth_eq {v : PackedVector} (hv : Computed s false k j v) :
    v.width = s.buildWidth j := by
  rcases hv.width_eq with ⟨hj, hwidth⟩ | ⟨rfl, phi, hphi, hwidth⟩
  · unfold buildWidth
    rwa [if_neg hj]
  · rwa [buildWidth_plcp hphi]

/-- Building a kind that is not there. -/
theorem Good.origins_build (h : Good text sa s) (hk : s.get? k = none) :
    Ends (Store.build k false) s (fun _ t => Origins s t) fun _ t => Origins s t := by
  have hrefl := origins_refl s
  apply (build_spec s k false).mono
  · intro _ t ht
    cases ht with
    | stored hv _ _ => exact hrefl.put hk hv.buildWidth_eq
    | withInverse hv hu hempty =>
      exact (hrefl.put hk hv.buildWidth_eq).put (h.get?_eq_none hempty) hu.buildWidth_eq
    | inPlace hv _ _ => exact (hrefl.remove .phi).put hk hv.buildWidth_eq
  · rintro _ t (rfl | ⟨rfl, -⟩)
    · exact hrefl
    · exact hrefl.remove .phi

/-- The calls of a run in plain mode build uncompressed what is not there, and compress nothing. -/
theorem Good.origins_after (h : Good text sa s) {call : Event Kind} (hcall : call.InMode .plain) :
    Origins s (manager.after s call) := by
  cases call with
  | ensure k => exact origins_updateFlags (f := fun f => { f with registered := true }) rfl
  | construct k compressed =>
    obtain rfl : compressed = false := hcall
    apply Manager.reached_of_ends
    show Ends (Store.construct k false) s _ _
    rw [ends_construct]
    exact ⟨fun _ => ⟨fun hno => (by cases hno), fun _ => origins_refl s⟩,
      fun hk => h.origins_build (h.get?_eq_none hk)⟩
  | discard k intermediate => exact (origins_refl s).remove k
  | protect k => exact origins_updateFlags (f := fun f => { f with shared := true }) rfl
  | unprotect k => exact origins_updateFlags (f := fun f => { f with shared := false }) rfl
  | compress k => cases hcall

/-! ## Steps in a row -/

section

variable (h : Origins s t) (hkept : ∀ k, (s.get? k).isSome → (t.get? k).isSome)
  (hwidth : t.width = s.width)

include h hkept hwidth

/-- As long as nothing is lost a kind is built in the same width. -/
theorem Origins.buildWidth_eq (k : Kind) : t.buildWidth k = s.buildWidth k := by
  have hfull : t.fullWidth k = s.fullWidth k := by
    unfold fullWidth
    rw [hwidth]
  by_cases hk : k = .plcp
  · subst hk
    cases hs : s.get? .phi with
    | some v =>
      obtain ⟨v', ht⟩ := Option.isSome_iff_exists.1 (hkept .phi (by rw [hs]; rfl))
      rw [buildWidth_plcp hs, buildWidth_plcp ht]
      cases h .phi v' ht with
      | kept hthere _ =>
        rw [hs] at hthere
        injection hthere with hthere
        rw [hthere]
      | built hnew => cases hs.symm.trans hnew
    | none =>
      -- a phi array that has been built since has the width for positions
      have hnone : s.buildWidth .plcp = s.width := by
        unfold buildWidth
        rw [if_pos rfl, hs]
        rfl
      rw [hnone]
      cases ht : t.get? .phi with
      | some v' =>
        rw [buildWidth_plcp ht]
        cases h .phi v' ht with
        | kept hthere _ => cases hs.symm.trans hthere
        | built _ _ hphi => exact hphi
      | none =>
        unfold buildWidth
        rw [if_pos rfl, ht]
        exact hwidth
  · unfold buildWidth
    rw [if_neg hk, if_neg hk, hfull]

/-- What was kept or built in one of two stretches was so in the whole. -/
theorem Origins.trans (h' : Origins t u) : Origins s u := by
  intro k v hv
  cases h' k v hv with
  | kept hthere hmark =>
    cases h k v hthere with
    | kept hfirst hmark' => exact .kept hfirst (hmark.trans hmark')
    | built hnew hmark' hw => exact .built hnew (hmark.trans hmark') hw
  | built hnew hmark hw =>
    have hfirst : s.get? k = none := by
      rw [← Option.not_isSome_iff_eq_none]
      intro hthere
      have hlater := hkept k hthere
      rw [hnew] at hlater
      cases hlater
    exact .built hfirst hmark (hw.trans (h.buildWidth_eq hkept hwidth k))

end

end TextIndex.Store
