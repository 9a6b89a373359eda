import TextIndex.Plan.KindSet

/-!
# Finite tables keyed by kinds

A table gives a value to finitely many kinds and keeps them in the order in which they were entered.
It is a list of pairs in which no key repeats.
-/

set_option autoImplicit false

namespace TextIndex

/-- Finitely many kinds with a value each, in the order of their entry. -/
structure KindMap (K V : Type) where
  entries : List (K × V)
  keys_nodup : (entries.map Prod.fst).Nodup

namespace KindMap

variable {K V : Type}

/-- No entries. -/
def empty : KindMap K V := ⟨[], List.nodup_nil⟩

/-- The kinds that have a value. -/
def keys (m : KindMap K V) : List K := m.entries.map Prod.fst

/-- How many kinds have a value. -/
def size (m : KindMap K V) : Nat := m.entries.length

/-- The kind has a value. -/
def Contains (m : KindMap K V) (k : K) : Prop := k ∈ m.keys

variable [DecidableEq K]

instance (m : KindMap K V) (k : K) : Decidable (m.Contains k) :=
  inferInstanceAs (Decidable (k ∈ m.keys))

/-- The value of a kind. -/
def get? (m : KindMap K V) (k : K) : Option V := (m.entries.find? (·.1 = k)).map Prod.snd

/-- Replaces the value of a kind that has one. -/
def modify (m : KindMap K V) (k : K) (f : V → V) : KindMap K V :=
  ⟨m.entries.map fun e => if e.1 = k then (e.1, f e.2) else e, by
    have same : (m.entries.map fun e => if e.1 = k then (e.1, f e.2) else e).map Prod.fst =
        m.entries.map Prod.fst := by
      rw [List.map_map]
      refine List.map_congr_left fun e _ => ?_
      by_cases h : e.1 = k <;> simp [h]
    exact same ▸ m.keys_nodup⟩

/-- Gives a kind a value, in place of an old one or else at the end. -/
def put (m : KindMap K V) (k : K) (v : V) : KindMap K V :=
  if h : m.Contains k then m.modify k fun _ => v
  else ⟨m.entries ++ [(k, v)], by
    simpa [keys] using KindSet.nodup_snoc m.keys_nodup h⟩

/-- The empty map has no values. -/
@[simp] theorem get?_empty (k : K) : (empty : KindMap K V).get? k = none := rfl

/-- A kind has a value exactly when it is a key. -/
theorem get?_eq_none_iff {m : KindMap K V} {k : K} : m.get? k = none ↔ ¬ m.Contains k := by
  simp only [get?, Contains, keys, Option.map_eq_none_iff, List.find?_eq_none, decide_eq_true_eq,
    List.mem_map, not_exists, not_and]

omit [DecidableEq K] in
/-- The keys of a table are distinct. -/
theorem nodup_keys (m : KindMap K V) : m.keys.Nodup := m.keys_nodup

/-- A kind has a value exactly when one is found for it. -/
theorem contains_iff {m : KindMap K V} {k : K} : m.Contains k ↔ ∃ v, m.get? k = some v := by
  rw [← Option.ne_none_iff_exists', ne_eq, get?_eq_none_iff, Decidable.not_not]

/-- Changing a value keeps the keys and their order. -/
@[simp] theorem keys_modify (m : KindMap K V) (k : K) (f : V → V) :
    (m.modify k f).keys = m.keys := by
  simp only [keys, modify, List.map_map]
  refine List.map_congr_left fun e _ => ?_
  by_cases h : e.1 = k <;> simp [h]

/-- Only a new key is entered, and it is entered at the end. -/
theorem keys_put (m : KindMap K V) (k : K) (v : V) :
    (m.put k v).keys = if m.Contains k then m.keys else m.keys ++ [k] := by
  unfold put
  split
  · exact keys_modify ..
  · simp [keys]

/-- Putting a value adds its key. -/
@[simp] theorem contains_put {m : KindMap K V} {j k : K} {v : V} :
    (m.put k v).Contains j ↔ m.Contains j ∨ j = k := by
  unfold Contains
  rw [keys_put]
  split
  · next h =>
    refine ⟨Or.inl, ?_⟩
    rintro (hj | rfl)
    · exact hj
    · exact h
  · simp

/-- Only the value of the changed key is another one. -/
theorem get?_modify {m : KindMap K V} {j k : K} {f : V → V} :
    (m.modify k f).get? j = if j = k then (m.get? k).map f else m.get? j := by
  obtain ⟨entries, nodup⟩ := m
  simp only [get?, modify]
  clear nodup
  induction entries with
  | nil => by_cases h : j = k <;> simp [h]
  | cons e rest ih =>
    by_cases he : e.1 = k <;> by_cases hj : e.1 = j <;> by_cases hk : j = k <;>
      simp_all

/-- Only the key that was put has a new value. -/
theorem get?_put {m : KindMap K V} {j k : K} {v : V} :
    (m.put k v).get? j = if j = k then some v else m.get? j := by
  unfold put
  split
  case isTrue h =>
    rw [get?_modify]
    by_cases hj : j = k
    · obtain ⟨w, hw⟩ := Option.ne_none_iff_exists'.1 (fun hn => (get?_eq_none_iff.1 hn) h)
      simp [hj, hw]
    · simp [hj]
  case isFalse h =>
    have hn := get?_eq_none_iff.2 h
    simp only [get?, Option.map_eq_none_iff] at hn
    simp only [get?, List.find?_append]
    by_cases hj : j = k
    · subst hj
      simp [hn]
    · simp [hj, Ne.symm hj]

end KindMap

end TextIndex
