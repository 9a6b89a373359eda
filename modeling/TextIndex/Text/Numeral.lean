/-!
# Whole numbers in decimal

A numeral is an optional sign and at least one digit. Reading one can fail because nothing is there,
because a character is no digit, or because the number is outside the range asked for.
-/

set_option autoImplicit false

namespace TextIndex.Text

/-- Why a text is not read as a number. -/
inductive NumeralError where
  | empty
  | invalidDigit
  | tooLarge
  | tooSmall
deriving DecidableEq, Repr

/-- The sentence shown for a failure to read a number. -/
def NumeralError.message : NumeralError → String
  | .empty => "cannot parse integer from empty string"
  | .invalidDigit => "invalid digit found in string"
  | .tooLarge => "number too large to fit in target type"
  | .tooSmall => "number too small to fit in target type"

/-- The value of one decimal digit. -/
def digit? (c : Char) : Option Nat := if c.isDigit then some (c.toNat - '0'.toNat) else none

/-- Reads digits from the left, onto the number read so far. Whichever comes first is reported: a
character that is no digit, or a number beyond `limit`. -/
def readDigits (limit : Nat) (beyond : NumeralError) : Nat → List Char → Except NumeralError Nat
  | n, [] => .ok n
  | n, c :: rest =>
    match digit? c with
    | none => .error .invalidDigit
    | some d =>
      if limit < 10 * n + d then .error beyond else readDigits limit beyond (10 * n + d) rest

/-- A number from 0 to `limit`, with an optional plus sign. A sign needs a digit after it. -/
def readNat (limit : Nat) (s : String) : Except NumeralError Nat :=
  match s.toList with
  | [] => .error .empty
  | ['+'] => .error .invalidDigit
  | '+' :: digits => readDigits limit .tooLarge 0 digits
  | digits => readDigits limit .tooLarge 0 digits

/-- A number from `-low` to `high`, with an optional sign. A sign needs a digit after it. -/
def readInt (low high : Nat) (s : String) : Except NumeralError Int :=
  match s.toList with
  | [] => .error .empty
  | ['+'] => .error .invalidDigit
  | ['-'] => .error .invalidDigit
  | '-' :: digits => (readDigits low .tooSmall 0 digits).map fun n => -(n : Int)
  | '+' :: digits => (readDigits high .tooLarge 0 digits).map Int.ofNat
  | digits => (readDigits high .tooLarge 0 digits).map Int.ofNat

end TextIndex.Text
