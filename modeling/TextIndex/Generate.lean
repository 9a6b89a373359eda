/-!
# Generated texts

Texts on which index structures have their best and worst cases: highly repetitive ones, and a
pseudo-random one that a seed determines. None of them contains a zero byte.
-/

set_option autoImplicit false

namespace TextIndex.Generate

/-- The byte of `a`. -/
def letterA : UInt8 := 97

/-- The byte of `b`. -/
def letterB : UInt8 := 98

/-- A Fibonacci word and the one after it, `n` steps after the words `b` and `a`. -/
def fibonacciPair : Nat → List UInt8 × List UInt8
  | 0 => ([letterB], [letterA])
  | n + 1 =>
    let pair := fibonacciPair n
    (pair.2, pair.2 ++ pair.1)

/-- The `n`-th Fibonacci word: the first is `b`, the second `a`, and each later one is the two before
it, the nearer first. Word zero is empty. -/
def fibonacci : Nat → List UInt8
  | 0 => []
  | n + 1 => (fibonacciPair n).1

/-- The number of ones among the binary digits of a number. -/
def ones (n : Nat) : Nat := (List.range (n.log2 + 1)).countP n.testBit

/-- The first `len` letters of the Thue-Morse sequence: an `a` where the position has an even number of
binary ones, and a `b` elsewhere. -/
def thueMorse (len : Nat) : List UInt8 :=
  (List.range len).map fun i => if ones i % 2 = 0 then letterA else letterB

/-- The first `len` items of `block` repeated for ever, beginning in the middle of it with the items
`ahead`. -/
def cycled {α : Type} (block : List α) : Nat → List α → List α
  | 0, _ => []
  | len + 1, x :: ahead => x :: cycled block len ahead
  | len + 1, [] =>
    match block with
    | [] => []
    | x :: ahead => x :: cycled block len ahead

/-- Each letter of the alphabet `run` times, over and over, up to `len` bytes. Zero bytes of the
alphabet are passed over. A run longer than the text is cut to it beforehand. -/
def runs (alphabet : List UInt8) (run len : Nat) : List UInt8 :=
  let block := (alphabet.filter (· ≠ 0)).flatMap (List.replicate (min run len))
  cycled block len block

/-- The successor in the linear congruential sequence that pseudo-random letters are drawn from. -/
def advance (state : UInt64) : UInt64 := state * 6364136223846793005 + 1442695040888963407

/-- The letter drawn in a state, from the first `size` letters. -/
def draw (size state : UInt64) : UInt8 := letterA + ((state >>> 33) % size).toUInt8

/-- Letters drawn in the states that follow `state`. -/
def drawAll (size : UInt64) : Nat → UInt64 → List UInt8
  | 0, _ => []
  | len + 1, state =>
    let next := advance state
    draw size next :: drawAll size len next

/-- Pseudo-random text of `len` letters among the first `sigma`; at least one letter and at most all
of `a` to `z` are used. -/
def random (len sigma : Nat) (seed : UInt64) : List UInt8 :=
  drawAll (max 1 (min sigma 26)).toUInt64 len seed

end TextIndex.Generate
