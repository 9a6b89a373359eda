import TextIndex.Packed.Vector

/-!
# Reading a packed vector from both ends

A cursor holds the positions of a vector that have not been read yet, an interval that shrinks from
either end. Every element is delivered once, and when the ends meet both stay empty.
-/

set_option autoImplicit false

namespace TextIndex

/-- The unread positions `front ≤ i < back` of a vector. -/
structure Cursor where
  vector : PackedVector
  front : Nat
  back : Nat
  front_le : front ≤ back
  back_le : back ≤ vector.length

namespace Cursor

/-- Nothing read yet. -/
def all (v : PackedVector) : Cursor := ⟨v, 0, v.length, Nat.zero_le _, Nat.le_refl _⟩

/-- How many elements are unread. -/
def remaining (c : Cursor) : Nat := c.back - c.front

/-- The unread elements, front to back. -/
def rest (c : Cursor) : List UInt64 := (List.range' c.front c.remaining).map c.vector.element

/-- Takes the first unread element. -/
def next (c : Cursor) : Option UInt64 × Cursor :=
  if h : c.front < c.back then
    (some (c.vector.element c.front), { c with front := c.front + 1, front_le := h })
  else (none, c)

/-- Takes the last unread element. -/
def nextBack (c : Cursor) : Option UInt64 × Cursor :=
  if h : c.front < c.back then
    (some (c.vector.element (c.back - 1)),
      { c with
        back := c.back - 1
        front_le := Nat.le_sub_one_of_lt h
        back_le := Nat.le_trans (Nat.sub_le _ _) c.back_le })
  else (none, c)

end Cursor

end TextIndex
