/-!
# Blanks and letter case

Names typed by a user are compared without the blanks around them and without regard to the case of
the letters `a` to `z`. A blank is a character with the Unicode property `White_Space`.
-/

set_option autoImplicit false

namespace TextIndex.Text

/-- The character has the property `White_Space`. -/
def isBlank (c : Char) : Bool :=
  let n := c.toNat
  (0x09 ≤ n && n ≤ 0x0D) || n == 0x20 || n == 0x85 || n == 0xA0 || n == 0x1680 ||
    (0x2000 ≤ n && n ≤ 0x200A) || n == 0x2028 || n == 0x2029 || n == 0x202F || n == 0x205F ||
    n == 0x3000

/-- The text without the blanks at its start and its end. -/
def trimmed (cs : List Char) : List Char :=
  ((cs.dropWhile isBlank).reverse.dropWhile isBlank).reverse

/-- The text without the blanks at its start and its end. -/
def trim (s : String) : String := String.ofList (trimmed s.toList)

/-- The letters `A` to `Z` become `a` to `z`; every other character stays. -/
def foldCase (s : String) : String := String.ofList (s.toList.map Char.toLower)

/-- The runs of characters between blanks. -/
def words (s : String) : List String :=
  ((s.toList.splitBy fun a b => isBlank a == isBlank b).filter fun run =>
    !run.any isBlank).map String.ofList

end TextIndex.Text
