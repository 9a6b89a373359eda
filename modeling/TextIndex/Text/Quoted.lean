import TextIndex.Text.Unprintable

/-!
# Quoted text

A text is quoted between double quotes. A quote and a backslash get a backslash before them, tab,
carriage return, line feed and the null character have letters of their own, and every other
character without a visible form is written by its code point in hexadecimal.
-/

set_option autoImplicit false

namespace TextIndex.Text

/-- A code point in lower case hexadecimal, without leading zeros. -/
def hexadecimal (n : Nat) : String := String.ofList (Nat.toDigits 16 n)

/-- What stands for a character between the quotes. -/
def escaped (c : Char) : String :=
  match c with
  | '"' => "\\\""
  | '\\' => "\\\\"
  | '\t' => "\\t"
  | '\r' => "\\r"
  | '\n' => "\\n"
  | '\x00' => "\\0"
  | c => if isUnprintable c then "\\u\x7b" ++ hexadecimal c.toNat ++ "\x7d" else c.toString

/-- The text between quotes. -/
def quoted (s : String) : String := "\"" ++ String.join (s.toList.map escaped) ++ "\""

end TextIndex.Text
