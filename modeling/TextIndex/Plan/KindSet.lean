/-!
# Finite sets that remember their order

The kinds named by a provider, requested by a client or held by a manager form sets whose order can
be seen: elements stay where they were first put. A set is a list without repetition.
-/

set_option autoImplicit false

namespace TextIndex

/-- A finite set of kinds in the order of their first insertion. -/
structure KindSet (K : Type) where
  toList : List K
  nodup : toList.Nodup
deriving DecidableEq

namespace KindSet

variable {K : Type}

instance : Membership K (KindSet K) := ⟨fun s k => k ∈ s.toList⟩

/-- A kind is in the set if it is listed. -/
theorem mem_def {s : KindSet K} {k : K} : k ∈ s ↔ k ∈ s.toList := Iff.rfl

instance [DecidableEq K] (k : K) (s : KindSet K) : Decidable (k ∈ s) :=
  inferInstanceAs (Decidable (k ∈ s.toList))

/-- No kinds. -/
def empty : KindSet K := ⟨[], List.nodup_nil⟩

/-- How many kinds there are. -/
def size (s : KindSet K) : Nat := s.toList.length

/-- The empty set lists nothing. -/
@[simp] theorem toList_empty : (empty : KindSet K).toList = [] := rfl

/-- The empty set has no members. -/
@[simp] theorem not_mem_empty (k : K) : k ∉ (empty : KindSet K) := List.not_mem_nil

/-- A new element at the end of a list without repetition repeats nothing. -/
theorem nodup_snoc {l : List K} {k : K} (hl : l.Nodup) (hk : k ∉ l) : (l ++ [k]).Nodup := by
  rw [List.nodup_append]
  refine ⟨hl, by simp, ?_⟩
  intro a ha b hb
  rw [List.mem_singleton] at hb
  rintro rfl
  exact hk (hb ▸ ha)

variable [DecidableEq K]

/-- Puts a kind at the end, unless it is there already. -/
def insert (s : KindSet K) (k : K) : KindSet K :=
  if h : k ∈ s.toList then s else ⟨s.toList ++ [k], nodup_snoc s.nodup h⟩

/-- Inserts kinds one after the other. -/
def insertAll (s : KindSet K) (ks : List K) : KindSet K := ks.foldl insert s

/-- The kinds of a list, each where it first stands. -/
def ofList (ks : List K) : KindSet K := empty.insertAll ks

/-- Removes a kind. -/
def erase (s : KindSet K) (k : K) : KindSet K :=
  ⟨s.toList.filter (· ≠ k), s.nodup.filter _⟩

/-- A new kind is listed last. -/
theorem toList_insert_of_not_mem {s : KindSet K} {k : K} (h : k ∉ s) :
    (s.insert k).toList = s.toList ++ [k] := by
  have h' : k ∉ s.toList := h
  unfold insert
  rw [dif_neg h']

/-- Putting a kind in adds no other. -/
@[simp] theorem mem_insert {s : KindSet K} {j k : K} : j ∈ s.insert k ↔ j ∈ s ∨ j = k := by
  unfold insert
  split
  · constructor
    · exact Or.inl
    · rintro (h | rfl)
      · exact h
      · assumption
  · simp [mem_def]

/-- Taking a kind out leaves the others. -/
@[simp] theorem mem_erase {s : KindSet K} {j k : K} : j ∈ s.erase k ↔ j ∈ s ∧ j ≠ k := by
  simp [erase, mem_def]

/-- Putting kinds in adds these and no others. -/
theorem mem_insertAll {s : KindSet K} {j : K} {ks : List K} :
    j ∈ s.insertAll ks ↔ j ∈ s ∨ j ∈ ks := by
  induction ks generalizing s with
  | nil => simp [insertAll]
  | cons k rest ih =>
    have step : s.insertAll (k :: rest) = (s.insert k).insertAll rest := rfl
    rw [step, ih, mem_insert, List.mem_cons, or_assoc]

/-- The set of a list has the list's members. -/
@[simp] theorem mem_ofList {j : K} {ks : List K} : j ∈ ofList ks ↔ j ∈ ks := by
  simp [ofList, mem_insertAll]

end KindSet

end TextIndex
