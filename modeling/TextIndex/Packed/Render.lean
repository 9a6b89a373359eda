import TextIndex.Packed.Vector

/-!
# Packed vectors as text

The one-line form names the width, the length and the elements, and ends in two dots for the
storage that it leaves out. The block form says the same with one item a line.
-/

set_option autoImplicit false

namespace TextIndex

/-- Numbers between brackets, separated by a comma and a blank. -/
def bracketed (items : List String) : String := "[" ++ ", ".intercalate items ++ "]"

namespace PackedVector

/-- The elements in decimal. -/
def numerals (v : PackedVector) : List String := v.toList.map fun x => toString x.toNat

/-- The form on one line. -/
def render (v : PackedVector) : String :=
  s!"IntVector \x7b width: {v.width.bits}, len: {v.length}, values: {bracketed v.numerals}, .. \x7d"

/-- The elements as a block: one to a line, or an empty pair of brackets. -/
def valueBlock (v : PackedVector) : String :=
  if v.isEmpty then "[]"
  else "[\n" ++ String.join (v.numerals.map fun x => "        " ++ x ++ ",\n") ++ "    ]"

/-- The form with one item a line. -/
def renderBlock (v : PackedVector) : String :=
  s!"IntVector \x7b\n    width: {v.width.bits},\n    len: {v.length},\n    values: {v.valueBlock},\n    ..\n\x7d"

end PackedVector

end TextIndex
