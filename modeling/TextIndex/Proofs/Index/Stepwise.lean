import TextIndex.Proofs.Index.Results

/-!
# Building in steps

Structures may be asked for one after the other or all at once. The planner takes different ways then: a
structure that is released within one run is built a second time by the next, and the permuted prefix
array may be made from a phi array that is held and compressed, or in the storage of one that is not.
A client sees nothing of this (`building_in_steps`).

The reason is that everything a client sees can be told from the set of the kinds that have been asked
for (`Holding`). They are what is held, what they lead to is what has been made ready, the elements are
those of the one right structure, and the width is the one of the mode. So a further run only has to
add its kinds to the set (`Holding.construct`).
-/

set_option autoImplicit false

namespace TextIndex

open Store (Setup Plain)

namespace Index

/-- Builds the kinds of one list after those of another, each list in a run of its own. -/
def constructEach (requests : List (List Kind)) : EStateM ConstructError Index Unit :=
  requests.forM fun kinds => discard (construct kinds)

/-- What a client sees of a kind. -/
structure View where
  registered : Bool
  live : Bool
  compressed : Bool
  /-- The elements of the structure and the bits of each. -/
  held : Option (List UInt64 × Width)
deriving DecidableEq

/-- What a client sees of an index. -/
def view (ix : Index) (k : Kind) : View where
  registered := (ix.store.flags k).registered
  live := ix.store.isLive k
  compressed := (ix.store.flags k).compressed
  held := (ix.get? k).map fun v => (v.toList, v.width)

variable {text : SentinelText} {sa : List Nat} {width : Width} {mode : Mode} {ix ix' : Index}
  {asked : List Kind}

/-- An index that has been asked for some kinds, in whatever steps. -/
structure Holding (text : SentinelText) (sa : List Nat) (width : Width) (mode : Mode)
    (asked : List Kind) (ix : Index) : Prop where
  settled : Settled text sa width mode ix
  isSome_iff : ∀ k, (ix.get? k).isSome ↔ k ∈ asked
  registered_iff : ∀ k, (ix.store.flags k).registered = true ↔ Kind.registry.Reachable asked k
  plain : mode = .plain → Plain ix.store

/-- A new index holds what has been asked for: nothing. -/
theorem holding_new (text : SentinelText) (sa : List Nat) (width : Width) (mode : Mode) :
    Holding text sa width mode [] ⟨.new text width mode⟩ where
  settled := settled_new text sa width mode
  isSome_iff k := by simp [get?_new]
  registered_iff k := by simp [Registry.Reachable, Store.flags, Store.slot, Store.new]
  plain _ := Store.plain_new text width mode

/-- The order of the kinds, and how often each was asked for, does not matter. -/
theorem Holding.congr (h : Holding text sa width mode asked ix) {asked' : List Kind}
    (hasked : ∀ k, k ∈ asked ↔ k ∈ asked') : Holding text sa width mode asked' ix where
  settled := h.settled
  isSome_iff k := (h.isSome_iff k).trans (hasked k)
  registered_iff k := (h.registered_iff k).trans (Registry.reachable_congr hasked)
  plain := h.plain

/-! ## What is seen -/

/-- The kinds marked as being there are those that were asked for. -/
theorem Holding.isLive_iff (h : Holding text sa width mode asked ix) (k : Kind) :
    ix.store.isLive k = true ↔ k ∈ asked := by
  rw [h.settled.sound.setup.isLive_eq]
  exact h.isSome_iff k

/-- What is held is compressed in the modes that compress. -/
theorem Holding.compressed_iff (h : Holding text sa width mode asked ix) (k : Kind) :
    (ix.store.flags k).compressed = true ↔ mode ≠ .plain ∧ k ∈ asked := by
  constructor
  · intro hmark
    constructor
    · intro hmode
      rw [(h.plain hmode).unmarked k] at hmark
      cases hmark
    · obtain ⟨v, hv, -⟩ := h.settled.booked.least k hmark
      rw [← h.isSome_iff]
      exact Option.isSome_of_eq_some hv
  · rintro ⟨hmode, hk⟩
    exact (h.settled.least hmode ((h.isLive_iff k).2 hk)).1

/-- The mode says what width a structure has. -/
theorem Holding.width_eq (h : Holding text sa width mode asked ix) {k : Kind} {v : PackedVector}
    (hv : ix.get? k = some v) :
    v.width = if mode = .plain then (if k = .bwt then .byte else width) else .least v.maxValue := by
  split
  · next hmode =>
    rw [← h.settled.sound.setup.width_eq]
    exact (h.plain hmode).width_eq k v hv
  · next hmode =>
    have hk : k ∈ asked := (h.isSome_iff k).1 (Option.isSome_of_eq_some hv)
    obtain ⟨-, u, hu, hwidth⟩ := h.settled.least hmode ((h.isLive_iff k).2 hk)
    obtain rfl : v = u := Option.some.inj (hv.symm.trans hu)
    exact hwidth

/-- Indexes that have been asked for the same kinds look the same. -/
theorem Holding.view_eq (hsa : Sorts (SuffixArray.codes text.bytes) sa)
    (h : Holding text sa width mode asked ix) (h' : Holding text sa width mode asked ix') :
    ix.view = ix'.view := by
  have hheld : ∀ k, (ix.get? k).map (fun v => (v.toList, v.width)) =
      (ix'.get? k).map fun v => (v.toList, v.width) := by
    intro k
    have hsome : (ix.get? k).isSome ↔ (ix'.get? k).isSome :=
      (h.isSome_iff k).trans (h'.isSome_iff k).symm
    cases hv : ix.get? k with
    | none =>
      cases hv' : ix'.get? k with
      | none => rfl
      | some v' => simp [hv, hv'] at hsome
    | some v =>
      cases hv' : ix'.get? k with
      | none => simp [hv, hv'] at hsome
      | some v' =>
        have hlist : v.toList = v'.toList :=
          (h.settled.sound.setup.good.holds hv).toList_eq hsa (h'.settled.sound.setup.good.holds hv')
        have hmax : v.maxValue = v'.maxValue := congrArg (List.foldl max 0) hlist
        have hwidth : v.width = v'.width := by rw [h.width_eq hv, h'.width_eq hv', hmax]
        rw [Option.map_some, Option.map_some, hlist, hwidth]
  funext k
  unfold view
  rw [hheld k, Bool.eq_iff_iff.2 ((h.registered_iff k).trans (h'.registered_iff k).symm),
    Bool.eq_iff_iff.2 ((h.isLive_iff k).trans (h'.isLive_iff k).symm),
    Bool.eq_iff_iff.2 ((h.compressed_iff k).trans (h'.compressed_iff k).symm)]

/-! ## One step and many -/

section Steps

variable (hn : Measurable text.size) (hsa : Sorts (SuffixArray.codes text.bytes) sa)
  (hroom : mode ≠ .compressed → text.size ≤ width.bound)

include hn hsa hroom

/-- Building kinds registers all that they are built from, and these registrations stay. -/
theorem construct_registers (h : Setup text sa width mode ix.store) (kinds : List Kind) :
    Ends (construct kinds) ix (fun _ t => ∀ k, (t.store.flags k).registered = true ↔
      (ix.store.flags k).registered = true ∨ Kind.registry.Reachable (kinds ++ ix.heldInRun kinds) k)
      fun _ _ => False := by
  refine (construct_passes hn hsa hroom h kinds).mono ?_ fun _ _ hF => hF
  rintro _ _ ⟨run, t, u, hpassage, rfl⟩ k
  rw [hpassage.registered_iff Store.manager_registers, Store.flags_beginRun]

/-- In plain mode building kinds compresses nothing. -/
theorem construct_plain (h : Setup text sa width mode ix.store)
    (hplain : mode = .plain → Plain ix.store) (kinds : List Kind) :
    Ends (construct kinds) ix (fun _ t => mode = .plain → Plain t.store) fun _ _ => False := by
  refine (construct_passes hn hsa hroom h kinds).mono ?_ fun _ _ hF => hF
  rintro _ _ ⟨run, t, u, hpassage, rfl⟩ rfl
  have hbegin : Plain ix.store.beginRun :=
    Store.beginRun_induction (fun _ _ ht => ht.updateFlags rfl) (hplain rfl)
  exact hpassage.keeps Store.plain_after (stocks_of_room hn hsa hroom) hbegin

/-- A construct adds its kinds to those that have been asked for. -/
theorem Holding.construct (h : Holding text sa width mode asked ix) (kinds : List Kind) :
    Ends (construct kinds) ix (fun _ t => Holding text sa width mode (asked ++ kinds) t)
      fun _ _ => False := by
  have hsetup := h.settled.sound.setup
  have hlive := ends_construct_of_room hn hsa hroom hsetup kinds
  have hregisters := construct_registers hn hsa hroom hsetup kinds
  have hplain := construct_plain hn hsa hroom hsetup h.plain kinds
  refine ((h.settled.construct hn hsa kinds).and (hlive.and (hregisters.and hplain))).mono ?_ ?_
  · rintro _ t ⟨hsettled, ⟨-, hstock⟩, hregistered, hplain⟩
    refine ⟨hsettled, ?_, ?_, hplain⟩
    · intro k
      rw [hstock.isSome_iff, h.isSome_iff, List.mem_append]
    · intro k
      rw [hregistered, h.registered_iff, ← Registry.reachable_append]
      apply Registry.reachable_congr
      -- the held kinds that are requested with the others have been asked for before
      intro j
      have hheld : j ∈ ix.heldInRun kinds → j ∈ asked := fun hj =>
        (h.isSome_iff j).1 (isSome_of_mem_heldInRun hsetup hj)
      simp only [List.mem_append]
      tauto
  · exact fun _ _ ht => ht.2.1

/-- Building lists of kinds one after the other adds the kinds of each list. -/
theorem Holding.constructEach (h : Holding text sa width mode asked ix) (requests : List (List Kind)) :
    Ends (constructEach requests) ix
      (fun _ t => Holding text sa width mode (asked ++ requests.flatten) t) fun _ _ => False := by
  apply ends_forM fun done t => Holding text sa width mode (asked ++ done.flatten) t
  · rwa [List.flatten_nil, List.append_nil]
  · intro done kinds _ t _ ht
    rw [ends_discard, List.flatten_append, List.flatten_singleton, ← List.append_assoc]
    exact ht.construct hn hsa hroom kinds

end Steps

/-- Where the last position fits, or everything is built compressed, lists of kinds can be built one
after the other or all at once: an index that had nothing looks the same afterwards, and building any of
these kinds again changes nothing that is seen. The storage of a structure is measured with 64-bit
arithmetic, which is exact for every text that fits into memory. -/
theorem building_in_steps {bytes : Array UInt8} {config : Config} {ix : Index}
    (hn : Measurable (bytes.size + 1)) (hnew : Index.new bytes config = .ok ix)
    (hroom : config.mode ≠ .compressed → bytes.size < 2 ^ config.fullWidth)
    (requests : List (List Kind)) :
    ∃ t schedule u, constructEach requests ix = .ok () t ∧
      construct requests.flatten ix = .ok schedule u ∧ t.view = u.view ∧
      ∀ kinds ⊆ requests.flatten, ∃ schedule v,
        construct kinds t = .ok schedule v ∧ v.view = t.view := by
  obtain ⟨width, text, sa, hwidth, hsize, hsa, rfl⟩ := new_sorted hnew
  rw [← hsize] at hn
  have hroom' : config.mode ≠ .compressed → text.size ≤ width.bound := by
    intro hmode
    have hlast := hroom hmode
    rw [show bytes.size = text.size - 1 by omega, ← Nat.not_le, two_pow_le_iff hwidth] at hlast
    exact Nat.not_lt.1 hlast
  have hstart := holding_new text sa width config.mode
  obtain ⟨_, t, hsteps, ht⟩ := (hstart.constructEach hn hsa hroom' requests).exists_ok
  obtain ⟨schedule, u, honce, hu⟩ := (hstart.construct hn hsa hroom' requests.flatten).exists_ok
  refine ⟨t, schedule, u, hsteps, honce, ht.view_eq hsa hu, ?_⟩
  intro kinds hkinds
  obtain ⟨schedule', v, hagain, hv⟩ := (ht.construct hn hsa hroom' kinds).exists_ok
  refine ⟨schedule', v, hagain, (hv.congr fun k => ?_).view_eq hsa ht⟩
  rw [List.mem_append, or_iff_left_of_imp]
  exact fun hk => List.mem_append_right _ (hkinds hk)

/-- Over the bytes 98 and 97 in delayed mode. The first run makes the permuted prefix array in the
storage of a phi array, and the second needs a phi array again. All three kinds are there in the end. -/
theorem building_in_steps_over_pair :
    let text : SentinelText := ⟨#[98, 97], by simp⟩
    let ix : Index := ⟨.new text .byte .delayed⟩
    ∃ t schedule u, constructEach [[.plcp], [.lcp, .phi]] ix = .ok () t ∧
      Kind.all.filter t.store.isLive = [.phi, .plcp, .lcp] ∧
      construct [.plcp, .lcp, .phi] ix = .ok schedule u ∧ t.view = u.view ∧
      ∃ schedule v, construct [.phi] t = .ok schedule v ∧ v.view = t.view := by
  intro text ix
  obtain ⟨t, schedule, u, hsteps, honce, hview, hagain⟩ := building_in_steps
    (show Measurable (text.body.size + 1) from (by decide : 3 * 64 < UInt64.size))
    (new_of_text text .byte .delayed) (fun _ => show 2 < 2 ^ 8 by decide) [[.plcp], [.lcp, .phi]]
  refine ⟨t, schedule, u, hsteps, ?_, honce, hview, hagain [.phi] (by decide)⟩
  exact Ends.of_ok (Q := fun _ v => Kind.all.filter v.store.isLive = [.phi, .plcp, .lcp])
    (F := fun _ _ => False) (by decide +kernel) hsteps

end Index

end TextIndex
