import TextIndex.Plan.Error

/-!
# Outstanding consumers

The degree of a kind is the number of its consumers that have not been served yet: kinds that
require it, and the client that asked for it. A kind that no consumer was ever counted for has no
entry, which is not the same as an entry of zero.
-/

set_option autoImplicit false

namespace TextIndex

/-- Consumer counts of the kinds reached so far. -/
structure DegreeMap (K : Type) where
  counts : KindMap K Nat

namespace DegreeMap

variable {K : Type}

/-- Nothing counted. -/
def empty : DegreeMap K := ⟨.empty⟩

/-- The number of kinds counted. -/
def size (d : DegreeMap K) : Nat := d.counts.size

/-- Kinds and counts, in the order in which the kinds were first counted. -/
def entries (d : DegreeMap K) : List (K × Nat) := d.counts.entries

/-- The kinds counted, in the order in which they were first counted. -/
def keys (d : DegreeMap K) : List K := d.counts.keys

/-- The sum of all counts. -/
def total (d : DegreeMap K) : Nat := d.entries.foldl (fun sum e => sum + e.2) 0

/-- The kind has been counted, be it zero by now. -/
def Contains (d : DegreeMap K) (k : K) : Prop := d.counts.Contains k

variable [DecidableEq K]

instance (d : DegreeMap K) (k : K) : Decidable (d.Contains k) :=
  inferInstanceAs (Decidable (d.counts.Contains k))

/-- The count of a kind that has one. -/
def get? (d : DegreeMap K) (k : K) : Option Nat := d.counts.get? k

/-- The count of a kind, zero where it has none. -/
def degree (d : DegreeMap K) (k : K) : Nat := (d.get? k).getD 0

/-- Counts one more consumer. -/
def increment (d : DegreeMap K) (k : K) : DegreeMap K := ⟨d.counts.put k (d.degree k + 1)⟩

/-- Counts one consumer less; refused when there is none to take away. -/
def decrement (d : DegreeMap K) (k : K) : Except (InvariantError K) (DegreeMap K) :=
  match d.get? k with
  | none => .error (.orphan k)
  | some 0 => .error (.alreadyZero k)
  | some (n + 1) => .ok ⟨d.counts.put k n⟩

/-- Where nothing has been counted every degree is zero. -/
@[simp] theorem degree_empty (k : K) : (empty : DegreeMap K).degree k = 0 := rfl

omit [DecidableEq K] in
/-- Where nothing has been counted no kind has an entry. -/
@[simp] theorem not_contains_empty (k : K) : ¬ (empty : DegreeMap K).Contains k := List.not_mem_nil

/-- A kind with consumers left has been counted. -/
theorem contains_of_degree_pos {d : DegreeMap K} {k : K} (h : 0 < d.degree k) : d.Contains k := by
  refine Decidable.byContradiction fun hk => ?_
  have hnone : d.get? k = none := KindMap.get?_eq_none_iff.2 hk
  simp [degree, hnone] at h

/-- Counting a kind gives it an entry, if it had none. -/
@[simp] theorem contains_increment {d : DegreeMap K} {j k : K} :
    (d.increment k).Contains j ↔ d.Contains j ∨ j = k := KindMap.contains_put

/-- Counting enters a new kind at the end. -/
theorem keys_increment (d : DegreeMap K) (k : K) :
    (d.increment k).keys = if d.Contains k then d.keys else d.keys ++ [k] :=
  KindMap.keys_put ..

/-- Setting the count of a counted kind enters nothing. -/
theorem keys_put_of_contains {d : DegreeMap K} {k : K} {n : Nat} (h : d.Contains k) :
    (⟨d.counts.put k n⟩ : DegreeMap K).keys = d.keys := by
  have h' : d.counts.Contains k := h
  simp only [keys, KindMap.keys_put, if_pos h']

/-- What `decrement` answers: a kind with a consumer left loses one, and others are refused. -/
theorem decrement_of_degree {d : DegreeMap K} {k : K} {n : Nat} (h : d.degree k = n + 1) :
    d.decrement k = .ok ⟨d.counts.put k n⟩ := by
  unfold degree at h
  unfold decrement
  cases hk : d.get? k with
  | none => simp [hk] at h
  | some v =>
    obtain rfl : v = n + 1 := by simpa [hk] using h
    rfl

/-- A degree can be lowered only where a consumer is left. -/
theorem degree_of_decrement {d d' : DegreeMap K} {k : K} (h : d.decrement k = .ok d') :
    ∃ n, d.degree k = n + 1 ∧ d' = ⟨d.counts.put k n⟩ := by
  unfold decrement at h
  split at h
  · cases h
  · cases h
  · next n hn =>
    injection h with h
    exact ⟨n, by simp [degree, hn], h.symm⟩

/-- The degrees after one kind's has been set. -/
theorem degree_put {d : DegreeMap K} {j k : K} {n : Nat} :
    (⟨d.counts.put k n⟩ : DegreeMap K).degree j = if j = k then n else d.degree j := by
  unfold degree get?
  simp only [KindMap.get?_put]
  split <;> simp

/-- Counting a kind adds one to its own degree. -/
theorem degree_increment {d : DegreeMap K} {j k : K} :
    (d.increment k).degree j = if j = k then d.degree k + 1 else d.degree j := by
  unfold increment degree get?
  simp only [KindMap.get?_put]
  split <;> simp

end DegreeMap

end TextIndex
