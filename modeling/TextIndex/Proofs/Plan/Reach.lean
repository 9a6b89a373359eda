import TextIndex.Plan.Reach
import TextIndex.Proofs.Plan.Layers

/-!
# What the walk over requirements finds

The kinds that a request needs are found by a depth-first walk that remembers where it has been. It
finds exactly what is reachable: the walk below a kind may pass over a kind that was seen before, but
whatever it enters anew it follows up completely (`Explores`), and the walk as a whole starts with
nothing seen.

When a byproduct needs nothing that its producer does not need, kinds that a request touches can be
added to it and it touches nothing else (`Touches.of_append`).
-/

set_option autoImplicit false

namespace TextIndex.Registry

variable {K : Type} [DecidableEq K] {r : Registry K} {ks : List K} {k x : K}

/-- Building the given kinds touches the kind: they need it, or something they need yields it. -/
def Touches (r : Registry K) (ks : List K) (x : K) : Prop :=
  r.Reachable ks x ∨ ∃ j, r.Reachable ks j ∧ x ∈ r.byproducts j

/-- What is touched depends only on which kinds are given. -/
theorem Touches.congr {ks' : List K} (h : r.Touches ks x) (hks : ∀ k, k ∈ ks ↔ k ∈ ks') :
    r.Touches ks' x := by
  unfold Touches at h ⊢
  simpa only [reachable_congr hks] using h

/-! ## The walk -/

/-- A walk from the kinds `ks` that had seen `seen` before, and `found` after it. -/
structure Explores (r : Registry K) (ks : List K) (seen found : KindSet K) : Prop where
  keeps : ∀ x ∈ seen, x ∈ found
  covers : ∀ k ∈ ks, k ∈ found
  only : ∀ x ∈ found, x ∈ seen ∨ r.Reachable ks x
  /-- What was entered by this walk has been followed up. -/
  closed : ∀ x ∈ found, x ∈ seen ∨ ∀ q ∈ r.requirements x, q ∈ found

/-- A walk from nowhere finds nothing. -/
theorem explores_nil (r : Registry K) (seen : KindSet K) : r.Explores [] seen seen where
  keeps _ hx := hx
  covers _ hk := absurd hk List.not_mem_nil
  only _ hx := Or.inl hx
  closed _ hx := Or.inl hx

/-- One walk after the other. -/
theorem Explores.cons {seen mid found : KindSet K} (h : r.Explores [k] seen mid)
    (h' : r.Explores ks mid found) : r.Explores (k :: ks) seen found where
  keeps x hx := h'.keeps x (h.keeps x hx)
  covers x hx := by
    rcases List.mem_cons.1 hx with rfl | hx
    · exact h'.keeps x (h.covers x (List.mem_singleton_self x))
    · exact h'.covers x hx
  only x hx := by
    rcases h'.only x hx with hx | ⟨j, hj, hjx⟩
    · rcases h.only x hx with hx | ⟨j, hj, hjx⟩
      · exact Or.inl hx
      · refine Or.inr ⟨j, ?_, hjx⟩
        rw [List.mem_singleton.1 hj]
        exact List.mem_cons_self ..
    · exact Or.inr ⟨j, List.mem_cons_of_mem _ hj, hjx⟩
  closed x hx := by
    rcases h'.closed x hx with hx | hall
    · rcases h.closed x hx with hx | hall
      · exact Or.inl hx
      · exact Or.inr fun q hq => h'.keeps q (hall q hq)
    · exact Or.inr hall

/-- A walk from several kinds is one from each in turn. -/
theorem explores_foldl {walk : KindSet K → K → KindSet K}
    (hwalk : ∀ k ∈ ks, ∀ seen, r.Explores [k] seen (walk seen k)) (seen : KindSet K) :
    r.Explores ks seen (ks.foldl walk seen) := by
  induction ks generalizing seen with
  | nil => exact explores_nil r seen
  | cons k ks ih =>
    apply (hwalk k (List.mem_cons_self ..) seen).cons
    exact ih (fun j hj => hwalk j (List.mem_cons_of_mem _ hj)) _

/-- The walk from one kind. -/
theorem explores_reachWithin (L : r.Layers) (depth : Nat) :
    ∀ (k : K) (seen : KindSet K), L.level k < depth →
      r.Explores [k] seen (r.reachWithin depth seen k) := by
  -- what a kind requires has a lower level, so the depth that is left suffices for it
  induction depth with
  | zero =>
    intro k seen hlevel
    exact absurd hlevel (Nat.not_lt_zero _)
  | succ depth ih =>
    intro k seen hlevel
    unfold reachWithin
    split
    · next hk =>
      refine ⟨fun _ hx => hx, fun x hx => ?_, fun _ hx => Or.inl hx, fun _ hx => Or.inl hx⟩
      rwa [List.mem_singleton.1 hx]
    · have hbelow : r.Explores (r.requirements k) (seen.insert k)
          ((r.requirements k).foldl (r.reachWithin depth) (seen.insert k)) := by
        apply explores_foldl
        intro q hq seen'
        apply ih
        have := L.level_lt hq
        omega
      have hself : k ∈ (r.requirements k).foldl (r.reachWithin depth) (seen.insert k) :=
        hbelow.keeps k (KindSet.mem_insert.2 (Or.inr rfl))
      refine ⟨fun x hx => hbelow.keeps x (KindSet.mem_insert.2 (Or.inl hx)), ?_, ?_, ?_⟩
      · intro x hx
        rwa [List.mem_singleton.1 hx]
      · intro x hx
        rcases hbelow.only x hx with hx | ⟨q, hq, hqx⟩
        · rcases KindSet.mem_insert.1 hx with hx | rfl
          · exact Or.inl hx
          · exact Or.inr (reachable_of_mem (List.mem_singleton_self x))
        · exact Or.inr ⟨k, List.mem_singleton_self k, .head hq hqx⟩
      · intro x hx
        rcases hbelow.closed x hx with hx | hall
        · rcases KindSet.mem_insert.1 hx with hx | rfl
          · exact Or.inl hx
          · exact Or.inr hbelow.covers
        · exact Or.inr hall

/-- The needed kinds are the reachable ones. -/
theorem mem_needed (L : r.Layers) : x ∈ r.needed ks ↔ r.Reachable ks x := by
  have hwalk : r.Explores ks .empty (r.needed ks) :=
    explores_foldl (fun k _ seen => explores_reachWithin L r.depth k seen (L.level_lt_depth k)) _
  constructor
  · intro hx
    exact (hwalk.only x hx).resolve_left (KindSet.not_mem_empty x)
  · intro hx
    apply hx.mem_of_closed (· ∈ r.needed ks) hwalk.covers
    intro k hk
    exact (hwalk.closed k hk).resolve_left (KindSet.not_mem_empty k)

/-- The kinds that a run touches are found by walking from those that it is asked for. -/
theorem mem_touched (L : r.Layers) : x ∈ r.touched ks ↔ r.Touches ks x := by
  unfold touched Touches
  simp only [KindSet.mem_insertAll, List.mem_flatMap, ← KindSet.mem_def, mem_needed L]

/-! ## Adding what is touched -/

/-- What is reachable from something reachable. -/
theorem Reachable.trans {j : K} (h : r.Reachable ks j) (h' : r.Reachable [j] x) :
    r.Reachable ks x := by
  obtain ⟨k, hk, hkj⟩ := h
  obtain ⟨i, hi, hix⟩ := h'
  rw [List.mem_singleton.1 hi] at hix
  exact ⟨k, hk, hkj.trans hix⟩

/-- What building a reachable kind touches is touched in any case. -/
theorem Touches.after {j : K} (h : r.Reachable ks j) (h' : r.Touches [j] x) : r.Touches ks x := by
  rcases h' with h' | ⟨i, hi, hx⟩
  · exact Or.inl (h.trans h')
  · exact Or.inr ⟨i, h.trans hi, hx⟩

/-- Byproducts lead to nothing that their producer does not lead to. -/
structure ByproductsWithin (r : Registry K) : Prop where
  requirements : ∀ k, ∀ b ∈ r.byproducts k, ∀ q ∈ r.requirements b, r.Reachable [k] q
  byproducts : ∀ k, ∀ b ∈ r.byproducts k, ∀ c ∈ r.byproducts b, r.Touches [k] c

/-- Asking besides for kinds that are touched anyway touches nothing else. -/
theorem Touches.of_append (hr : r.ByproductsWithin) {more : List K}
    (hmore : ∀ k ∈ more, r.Touches ks k) (h : r.Touches (ks ++ more) x) : r.Touches ks x := by
  have hreach : ∀ j, r.Reachable (ks ++ more) j → r.Touches ks j := by
    intro j hj
    apply hj.mem_of_closed (r.Touches ks)
    · intro k hk
      rcases List.mem_append.1 hk with hk | hk
      · exact Or.inl (reachable_of_mem hk)
      · exact hmore k hk
    · rintro k (hk | ⟨i, hi, hk⟩) q hq
      · exact Or.inl (hk.needs hq)
      · exact Or.inl (hi.trans (hr.requirements i k hk q hq))
  rcases h with h | ⟨j, hj, hx⟩
  · exact hreach x h
  · rcases hreach j hj with hj | ⟨i, hi, hj⟩
    · exact Or.inr ⟨j, hj, hx⟩
    · exact Touches.after hi (hr.byproducts i j hj x hx)

end TextIndex.Registry
