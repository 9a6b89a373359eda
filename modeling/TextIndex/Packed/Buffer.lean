import TextIndex.Packed.Width

/-!
# Word storage

The storage behind a packed vector: an array of 64-bit words together with the number of words
reserved for it. The reserved number decides how many bytes a structure is charged for, so every
operation states what it does to it:

* growing past the reservation reserves at least twice as much as before, and never fewer than
  four words;
* cutting the words short keeps the reservation;
* fitting, or taking a copy, reserves exactly the words in use.
-/

set_option autoImplicit false

namespace TextIndex

/-- Words in use, and the number of words reserved for them. -/
structure Buffer where
  words : Array UInt64
  capacity : Nat
  size_le : words.size ≤ capacity

namespace Buffer

/-- No words, with room reserved for exactly `n`. -/
def reserving (n : Nat) : Buffer := ⟨#[], n, Nat.zero_le n⟩

/-- No words and nothing reserved. -/
def empty : Buffer := reserving 0

/-- The number of words in use. -/
def size (b : Buffer) : Nat := b.words.size

/-- Bytes reserved. -/
def heapBytes (b : Buffer) : Nat := 8 * b.capacity

/-- The reservation after making room for `n` words: unchanged if they fit, and otherwise twice
the old one, or `n`, or four words, whichever is most. -/
def capacityFor (b : Buffer) (n : Nat) : Nat :=
  if n ≤ b.capacity then b.capacity else max (2 * b.capacity) (max n 4)

/-- Making room for words reserves enough of them. -/
theorem le_capacityFor (b : Buffer) (n : Nat) : n ≤ b.capacityFor n := by
  unfold capacityFor
  split <;> omega

/-- Making room gives nothing back. -/
theorem capacity_le_capacityFor (b : Buffer) (n : Nat) : b.capacity ≤ b.capacityFor n := by
  unfold capacityFor
  split <;> omega

/-- At least `n` words: zero words are appended where some are missing. -/
def extendTo (b : Buffer) (n : Nat) : Buffer :=
  let capacity := b.capacityFor n
  have hn : n ≤ capacity := b.le_capacityFor n
  have hc : b.capacity ≤ capacity := b.capacity_le_capacityFor n
  match b with
  | ⟨words, _, le⟩ =>
    ⟨words ++ Array.replicate (n - words.size) 0, capacity, by
      simp only [Array.size_append, Array.size_replicate] at hc ⊢
      omega⟩

/-- At most `n` words; the reservation stays. -/
def truncate (b : Buffer) (n : Nat) : Buffer :=
  ⟨b.words.extract 0 n, b.capacity, by
    have hs := b.size_le
    simp only [Array.size_extract]
    omega⟩

/-- Exactly `n` words. -/
def resize (b : Buffer) (n : Nat) : Buffer :=
  if n ≤ b.size then b.truncate n else b.extendTo n

/-- Only the words in use stay reserved. -/
def fit (b : Buffer) : Buffer := ⟨b.words, b.words.size, Nat.le_refl _⟩

/-- Other contents for the same number of words. -/
@[inline] def update (b : Buffer) (f : Array UInt64 → Array UInt64)
    (h : ∀ words, (f words).size = words.size) : Buffer :=
  match b with
  | ⟨words, capacity, le⟩ => ⟨f words, capacity, (h words).symm ▸ le⟩

/-- Extending adds only the words that are missing. -/
@[simp] theorem size_extendTo (b : Buffer) (n : Nat) : (b.extendTo n).size = max b.size n := by
  simp only [extendTo, size, Array.size_append, Array.size_replicate]
  omega

/-- Truncating takes only the words that are too many. -/
@[simp] theorem size_truncate (b : Buffer) (n : Nat) : (b.truncate n).size = min n b.size := by
  simp [truncate, size, Array.size_extract]

/-- There are as many words as were asked for. -/
@[simp] theorem size_resize (b : Buffer) (n : Nat) : (b.resize n).size = n := by
  unfold resize
  split
  · rw [size_truncate]; omega
  · rw [size_extendTo]; omega

end Buffer

end TextIndex
