/-!
# Fields of a given breadth

A name is fitted into a field by cutting it to a greatest length and then filling up to a least
length, on one side or on both.
-/

set_option autoImplicit false

namespace TextIndex.Text

/-- Where the text stands in its field. -/
inductive Alignment where
  | left
  | right
  | centre
deriving DecidableEq, Repr

/-- How a text is fitted into a field. -/
structure Field where
  alignment : Alignment
  /-- Length up to which the text is filled. -/
  breadth : Nat
  /-- Length to which the text is cut. -/
  limit : Option Nat := none
  /-- What it is filled with. -/
  fill : Char := ' '

/-- The text cut to the limit and filled to the breadth. When both sides are filled, the left one
gets the smaller half. -/
def Field.place (f : Field) (s : String) : String :=
  let kept := match f.limit with
    | some n => s.toList.take n
    | none => s.toList
  let missing := f.breadth - kept.length
  let before := match f.alignment with
    | .left => 0
    | .right => missing
    | .centre => missing / 2
  String.ofList
    (List.replicate before f.fill ++ kept ++ List.replicate (missing - before) f.fill)

end TextIndex.Text
