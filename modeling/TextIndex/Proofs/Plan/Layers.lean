import Mathlib.Data.List.Perm.Subperm
import Mathlib.Logic.Relation
import TextIndex.Proofs.Loops
import TextIndex.Proofs.Plan.Mentions

/-!
# Valid registries are layered

A registry that passes validation can be cut into layers: every kind is assigned a level that is
greater than the levels of its requirements and below the recursion depth of the planner. This is
what makes a depth-bounded recursion over requirements complete, and it excludes cycles.

The levels are read off the list of finished kinds that a successful walk leaves behind
(`Finished`): a kind is entered there only after everything it requires, and only once. The bound on
the walk's own recursion is never reached, because the kinds on its path are registered and distinct.
-/

set_option autoImplicit false

namespace TextIndex.Registry

variable {K : Type} [DecidableEq K]

/-! ## Reaching and layering -/

/-- The kind directly requires `q`. -/
def Needs (r : Registry K) (k q : K) : Prop := q ∈ r.requirements k

/-- The kind is one of those given, or some of them require it, directly or through others. -/
def Reachable (r : Registry K) (ks : List K) (x : K) : Prop :=
  ∃ k ∈ ks, Relation.ReflTransGen r.Needs k x

/-- Levels that fall along every requirement. -/
structure Layers (r : Registry K) where
  level : K → Nat
  level_lt : ∀ {k q : K}, q ∈ r.requirements k → level q < level k
  level_lt_depth : ∀ k : K, level k < r.depth

/-- The given kinds are reachable. -/
theorem reachable_of_mem {r : Registry K} {ks : List K} {k : K} (h : k ∈ ks) :
    r.Reachable ks k := ⟨k, h, .refl⟩

/-- What is reachable depends only on which kinds are given. -/
theorem reachable_congr {r : Registry K} {ks ks' : List K} (h : ∀ k, k ∈ ks ↔ k ∈ ks') {x : K} :
    r.Reachable ks x ↔ r.Reachable ks' x := by
  unfold Reachable
  simp only [h]

/-- What several kinds reach is what some of them reach. -/
theorem reachable_append {r : Registry K} {ks ks' : List K} {x : K} :
    r.Reachable (ks ++ ks') x ↔ r.Reachable ks x ∨ r.Reachable ks' x := by
  unfold Reachable
  simp only [List.mem_append, or_and_right, exists_or]

/-- What a reachable kind requires is reachable. -/
theorem Reachable.needs {r : Registry K} {ks : List K} {k q : K} (h : r.Reachable ks k)
    (hq : q ∈ r.requirements k) : r.Reachable ks q := by
  obtain ⟨j, hj, hjk⟩ := h
  exact ⟨j, hj, hjk.tail hq⟩

/-- A set that holds the given kinds and the requirements of its members holds whatever is
reachable. -/
theorem Reachable.mem_of_closed {r : Registry K} {ks : List K} {x : K} (h : r.Reachable ks x)
    (P : K → Prop) (hks : ∀ k ∈ ks, P k) (hclosed : ∀ k, P k → ∀ q ∈ r.requirements k, P q) :
    P x := by
  obtain ⟨k, hk, hkx⟩ := h
  induction hkx with
  | refl => exact hks k hk
  | tail _ hq ih => exact hclosed _ ih _ hq

/-- Levels never rise along a chain of requirements. -/
theorem Layers.level_le {r : Registry K} (L : r.Layers) {k x : K}
    (h : Relation.ReflTransGen r.Needs k x) : L.level x ≤ L.level k := by
  induction h with
  | refl => exact Nat.le_refl _
  | tail _ hq ih => exact Nat.le_trans (Nat.le_of_lt (L.level_lt hq)) ih

/-- No requirement of a kind leads back to it. -/
theorem Layers.not_reachable_requirement {r : Registry K} (L : r.Layers) {k q : K}
    (hq : q ∈ r.requirements k) : ¬ Relation.ReflTransGen r.Needs q k := fun h =>
  absurd (L.level_le h) (Nat.not_le.2 (L.level_lt hq))

/-! ## What a successful walk leaves behind -/

/-- Every registered kind mentioned as a requirement is registered. -/
def Closed (r : Registry K) : Prop := ∀ k, ∀ q ∈ r.requirements k, r.Contains q

/-- A list of registered kinds without repetition in which each stands after its requirements. -/
structure Finished (r : Registry K) (finished : List K) : Prop where
  nodup : finished.Nodup
  registered : ∀ k ∈ finished, r.Contains k
  sorted : ∀ before k after, finished = before ++ k :: after → ∀ q ∈ r.requirements k, q ∈ before

/-- Nothing is finished at first. -/
theorem finished_nil (r : Registry K) : r.Finished [] where
  nodup := List.nodup_nil
  registered := by simp
  sorted := by simp

/-- A kind may be entered after everything that it requires. -/
theorem Finished.snoc {r : Registry K} {finished : List K} {k : K} (h : r.Finished finished)
    (hk : k ∉ finished) (hr : r.Contains k) (hq : ∀ q ∈ r.requirements k, q ∈ finished) :
    r.Finished (finished ++ [k]) where
  nodup := KindSet.nodup_snoc h.nodup hk
  registered := by
    intro x hx
    rcases List.mem_append.1 hx with hx | hx
    · exact h.registered x hx
    · rwa [List.mem_singleton.1 hx]
  sorted := by
    intro before x after heq q hxq
    rcases snoc_eq_append_cons heq with ⟨rfl, rfl, -⟩ | ⟨rest, -, hsplit⟩
    · exact hq q hxq
    · exact h.sorted before x rest hsplit q hxq

omit [DecidableEq K] in
/-- The kinds on the path of a walk are distinct and registered, so there are fewer than the depth
of the registry. -/
theorem length_lt_depth {r : Registry K} {path : List K} (hnodup : path.Nodup)
    (hreg : ∀ x ∈ path, r.Contains x) : path.length < r.depth := by
  have hle : path.length ≤ r.kinds.length :=
    (List.subperm_of_subset hnodup hreg).length_le
  have hkinds : r.kinds.length = r.size := by simp [kinds, KindMap.keys, size, KindMap.size]
  unfold depth
  omega

/-- What a walk may do to the finished kinds: more kinds are finished, but none on its path. -/
structure Walked (r : Registry K) (path before after : List K) : Prop where
  finished : r.Finished after
  keeps : before ⊆ after
  avoids : ∀ x ∈ path, x ∉ after

/-- A walk that succeeds finishes its kind, and nothing on its path. -/
theorem walk_ok {r : Registry K} (hclosed : r.Closed) (depth : Nat) :
    ∀ {path before after : List K} {k : K}, r.Finished before → (path ++ [k]).Nodup →
      (∀ x ∈ path ++ [k], r.Contains x) → path.length + depth = r.depth →
      (∀ x ∈ path ++ [k], x ∉ before) → r.walk depth path before k = .ok after →
      r.Walked path before after ∧ k ∈ after := by
  induction depth with
  | zero =>
    intro path before after k _ hnodup hreg hlen _ _
    have hlt := length_lt_depth hnodup hreg
    simp only [List.length_append, List.length_singleton] at hlt
    omega
  | succ depth ih =>
    intro path before after k hfin hnodup hreg hlen hdisj hwalk
    obtain ⟨mid, hmid, hend⟩ := bind_eq_ok.1 hwalk
    cases hend
    -- the requirements are walked one after the other, with `path ++ [k]` as their path
    obtain ⟨hw, hqs⟩ := foldlM_ok
      (fun done acc => r.Walked (path ++ [k]) before acc ∧ done ⊆ acc)
      ⟨⟨hfin, List.Subset.refl _, hdisj⟩, List.nil_subset _⟩
      (by
        intro done q rest acc acc' hsplit ⟨hw, hdone⟩ hround
        have hqk : q ∈ r.requirements k := by rw [hsplit]; simp
        split at hround
        · next hq =>
          cases hround
          exact ⟨hw, by simp [hdone, hq]⟩
        · next hq =>
          split at hround
          · cases hround
          · next hp =>
            have hext : ∀ x ∈ (path ++ [k]) ++ [q], x ∈ path ++ [k] ∨ x = q := by
              intro x hx
              simpa only [List.mem_append, List.mem_singleton] using hx
            obtain ⟨hw', hqa⟩ := ih hw.finished (KindSet.nodup_snoc hnodup hp)
              (by
                intro x hx
                rcases hext x hx with hx | rfl
                · exact hreg x hx
                · exact hclosed k x hqk)
              (by simp only [List.length_append, List.length_singleton]; omega)
              (by
                intro x hx
                rcases hext x hx with hx | rfl
                · exact hw.avoids x hx
                · exact hq)
              hround
            refine ⟨⟨hw'.finished, List.Subset.trans hw.keeps hw'.keeps, hw'.avoids⟩, ?_⟩
            rw [List.append_subset]
            exact ⟨List.Subset.trans hdone hw'.keeps, by simpa using hqa⟩)
      hmid
    have hk : k ∉ mid := hw.avoids k (by simp)
    refine ⟨⟨hw.finished.snoc hk (hreg k (by simp)) hqs, ?_, ?_⟩, by simp⟩
    · intro x hx
      exact List.mem_append_left _ (hw.keeps hx)
    · intro x hx
      have hxk : x ≠ k := (List.nodup_append.1 hnodup).2.2 x hx k (by simp)
      simp [hw.avoids x (by simp [hx]), hxk]

/-- The walk over all kinds, when it succeeds, finishes every registered kind. -/
theorem walkAll_ok {r : Registry K} (hclosed : r.Closed) {finished : List K}
    (h : r.walkAll = .ok finished) : r.Finished finished ∧ r.kinds ⊆ finished := by
  refine foldlM_ok (fun done acc => r.Finished acc ∧ done ⊆ acc)
    ⟨finished_nil r, List.nil_subset _⟩ ?_ h
  intro done k rest acc acc' hsplit ⟨hfin, hdone⟩ hround
  have hk : r.Contains k := by
    show k ∈ r.kinds
    rw [hsplit]
    simp
  split at hround
  · next hmem =>
    cases hround
    exact ⟨hfin, by simp [hdone, hmem]⟩
  · next hmem =>
    have hnodup : ([] ++ [k]).Nodup := by simp
    obtain ⟨hw, hka⟩ := walk_ok hclosed r.depth hfin hnodup (by simpa using hk)
      (by simp) (by simpa using hmem) hround
    refine ⟨hw.finished, ?_⟩
    rw [List.append_subset]
    exact ⟨List.Subset.trans hdone hw.keeps, by simpa using hka⟩

/-! ## Levels from the finished kinds -/

/-- A finished kind stands at a later place than what it requires. -/
theorem Finished.idxOf_lt {r : Registry K} {finished : List K} (h : r.Finished finished) {k q : K}
    (hk : k ∈ finished) (hq : q ∈ r.requirements k) :
    finished.idxOf q < finished.idxOf k := by
  have hlt : finished.idxOf k < finished.length := List.idxOf_lt_length_iff.2 hk
  have hsplit : finished = finished.take (finished.idxOf k) ++
      k :: finished.drop (finished.idxOf k + 1) := by
    conv_lhs => rw [← List.take_append_drop (finished.idxOf k) finished,
      List.drop_eq_getElem_cons hlt, List.getElem_idxOf hlt]
  have hmem := h.sorted _ _ _ hsplit q hq
  have hle : (finished.take (finished.idxOf k)).length = finished.idxOf k := by
    rw [List.length_take]; omega
  calc finished.idxOf q = (finished.take (finished.idxOf k)).idxOf q := by
        conv_lhs => rw [hsplit, List.idxOf_append_of_mem hmem]
    _ < (finished.take (finished.idxOf k)).length := List.idxOf_lt_length_iff.2 hmem
    _ = finished.idxOf k := hle

/-- The place in a complete list of finished kinds is a level. -/
def Finished.layers {r : Registry K} {finished : List K} (h : r.Finished finished)
    (hall : r.kinds ⊆ finished) : r.Layers where
  level := finished.idxOf
  level_lt := by
    intro k q hq
    have hk : r.Contains k := by
      by_contra hk
      simp [requirements_of_not_contains hk] at hq
    exact h.idxOf_lt (hall hk) hq
  level_lt_depth k :=
    Nat.lt_of_le_of_lt List.idxOf_le_length (length_lt_depth h.nodup h.registered)

/-- In a registry without a dangling mention, all requirements are registered. -/
theorem closed_of_firstDangling {r : Registry K} (h : r.firstDangling = none) : r.Closed :=
  fun k q hq => firstDangling_eq_none_iff.1 h k q (Or.inl hq)

/-- A valid registry is layered. -/
theorem nonempty_layers {r : Registry K} (h : r.validate = .ok ()) : Nonempty r.Layers := by
  unfold validate at h
  split at h
  · cases h
  · next hdangling =>
    split at h
    · next finished hwalk =>
      obtain ⟨hfin, hall⟩ := walkAll_ok (closed_of_firstDangling hdangling) hwalk
      exact ⟨hfin.layers hall⟩
    · cases h

/-- A request that passes the check is made of a layered registry. -/
theorem nonempty_layers_of_request {r : Registry K} {ks : List K}
    (h : r.validateRequest ks = .ok ()) : Nonempty r.Layers := by
  unfold validateRequest at h
  split at h
  · cases h
  · exact nonempty_layers h

/-! ## Two registries to look at -/

/-- A kind that is built from two others. -/
def joint : Registry Nat :=
  ⟨⟨[(0, .leaf), (1, .leaf), (2, Provider.leaf.requires [0, 1])], by decide⟩⟩

/-- Two kinds built from a third, and a fourth built from both. -/
def diamond : Registry Nat :=
  ⟨⟨[(0, .leaf), (1, Provider.leaf.requires [0]), (2, Provider.leaf.requires [0]),
    (3, Provider.leaf.requires [1, 2])], by decide⟩⟩

end TextIndex.Registry
