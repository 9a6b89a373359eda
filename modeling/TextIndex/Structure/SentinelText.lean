/-!
# Texts with a sentinel

A text to be indexed is a sequence of bytes other than zero. A zero byte, the sentinel, is put after
it: it is smaller than every other byte and occurs once, so that no suffix is the beginning of
another one.
-/

set_option autoImplicit false

namespace TextIndex

/-- Bytes other than zero. -/
structure SentinelText where
  body : Array UInt8
  ne_sentinel : ∀ b ∈ body, b ≠ 0

namespace SentinelText

/-- The text of the given bytes, or the position of the first zero among them. -/
def ofBytes? (bytes : Array UInt8) : Except Nat SentinelText :=
  match h : bytes.findIdx? (· == 0) with
  | some i => .error i
  | none => .ok ⟨bytes, by simpa [Array.findIdx?_eq_none_iff] using h⟩

/-- The text and its sentinel. -/
def bytes (t : SentinelText) : Array UInt8 := t.body.push 0

/-- The number of suffixes: one for each byte and one for the sentinel. -/
def size (t : SentinelText) : Nat := t.body.size + 1

/-- The bytes of a text are counted with the sentinel. -/
@[simp] theorem size_bytes (t : SentinelText) : t.bytes.size = t.size := by
  simp [bytes, size]

end SentinelText

end TextIndex
