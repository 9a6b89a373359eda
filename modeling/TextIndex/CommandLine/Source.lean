import TextIndex.Generate
import TextIndex.Text.Numeral
import TextIndex.Text.Pieces
import TextIndex.Text.Quoted

/-!
# Specifications of generated texts

On the command line a generated text is named by a word and its numbers, with colons between them:
`fibonacci:N`, `thue-morse:LEN`, `runs:ALPHABET:RUN:LEN` or `random:LEN:SIGMA:SEED`.
-/

set_option autoImplicit false

namespace TextIndex.CommandLine

/-- A text to be generated. -/
inductive Source where
  | fibonacci (n : Nat)
  | thueMorse (len : Nat)
  | runs (alphabet : List UInt8) (run len : Nat)
  | random (len sigma : Nat) (seed : UInt64)
deriving DecidableEq, Repr

/-- Why a specification is refused. -/
inductive SourceError where
  /-- No generator has this name and this number of arguments. -/
  | unknownGenerator (spec : String)
  /-- There is no argument where one is needed. -/
  | missingArgument
  /-- The argument is no number below `2 ^ 64`. -/
  | invalidArgument (part : String)
  /-- The number of letters is above 255. -/
  | tooManyLetters
deriving DecidableEq, Repr

/-- The sentence shown for a refused specification. -/
def SourceError.message : SourceError → String
  | .unknownGenerator spec => s!"unknown generator {Text.quoted spec}"
  | .missingArgument => "missing generator argument"
  | .invalidArgument part => s!"invalid generator argument {Text.quoted part}"
  | .tooManyLetters => Text.NumeralError.tooLarge.message

namespace Source

/-- The generated bytes. -/
def bytes : Source → List UInt8
  | fibonacci n => Generate.fibonacci n
  | thueMorse len => Generate.thueMorse len
  | runs alphabet run len => Generate.runs alphabet run len
  | random len sigma seed => Generate.random len sigma seed

/-- The number at place `i` of a specification. -/
def argument (parts : List String) (i : Nat) : Except SourceError Nat :=
  match parts[i]? with
  | none => .error .missingArgument
  | some part =>
    match Text.readNat (UInt64.size - 1) part with
    | .ok n => .ok n
    | .error _ => .error (.invalidArgument part)

/-- The number of letters at place `i` of a specification. -/
def letterCount (parts : List String) (i : Nat) : Except SourceError Nat := do
  let n ← argument parts i
  if n ≤ 255 then return n else throw .tooManyLetters

/-- Reads a specification. Arguments are looked at from left to right, and the first that is no number
is reported. -/
def ofString? (spec : String) : Except SourceError Source := do
  let parts := Text.pieces ':' spec
  match parts.headD "", parts.length with
  | "fibonacci", 2 => return fibonacci (← argument parts 1)
  | "thue-morse", 2 => return thueMorse (← argument parts 1)
  | "runs", 4 =>
    let alphabet := (parts.getD 1 "").toUTF8.toList
    return runs alphabet (← argument parts 2) (← argument parts 3)
  | "random", 4 =>
    return random (← argument parts 1) (← letterCount parts 2) (← argument parts 3).toUInt64
  | _, _ => throw (.unknownGenerator spec)

end Source

end TextIndex.CommandLine
