import TextIndex.Packed.Vector

/-!
# Packed vectors in a running program

`PackedVector` says what an operation gives. A program that carries it out reckons with a 64-bit counter
and looks every word up by its place, and two things end it on the way:

* a product of a length and a width that the counter does not hold, if the counter is checked. One that is
  not checked goes on with the product modulo two to the power 64;
* a word that is not there.

`Source.run` and `Change.run` make these checks in the order in which a program comes to them, and where
none of them fails they return what the operation returns.
-/

set_option autoImplicit false

namespace TextIndex

/-- The 64-bit counter that measures storage and reckons the places in it. -/
inductive Counter where
  /-- A product that the counter does not hold ends the program. -/
  | checked
  /-- A product is taken modulo two to the power 64. -/
  | wrapping
deriving DecidableEq, Repr

/-- What ends a program. -/
inductive Halt where
  /-- A product that a checked counter does not hold. -/
  | overflow
  /-- There are `size` words, and none at `place`. -/
  | missingWord (size place : Nat)
deriving DecidableEq, Repr

/-- The sentence with which a program ends. -/
def Halt.message : Halt → String
  | .overflow => "attempt to multiply with overflow"
  | .missingWord size place => s!"index out of bounds: the len is {size} but the index is {place}"

namespace Counter

/-- The bits of `n` elements. -/
def bits (c : Counter) (w : Width) (n : Nat) : Except Halt Nat :=
  if c = .checked ∧ UInt64.size ≤ n * w.bits then .error .overflow
  else .ok (n * w.bits % UInt64.size)

/-- The number of words behind `length` elements. -/
def wordsFor (c : Counter) (w : Width) (length : Nat) : Except Halt Nat := do
  return ((← c.bits w length) + 63) / 64

/-- Looks for the words of field `i` among `size` words. -/
def lookUp (c : Counter) (size : Nat) (w : Width) (i : Nat) : Except Halt Unit := do
  discard (c.bits w i)
  match Field.missing? size w i with
  | some place => throw (.missingWord size place)
  | none => return

end Counter

namespace PackedVector

/-! ## Operations as data -/

/-- The ways to make a vector. -/
inductive Source where
  | empty (bits : Nat)
  | replicate (bits length : Nat) (value : UInt64)
  | ofList (bits : Nat) (values : List UInt64)

/-- The vector that is asked for. -/
def Source.make : Source → Except VectorError PackedVector
  | .empty bits => do return .empty (← Width.ofNat? bits)
  | .replicate bits length value => do replicate? (← Width.ofNat? bits) length value
  | .ofList bits values => do ofList? (← Width.ofNat? bits) values

/-- The operations that change a vector. -/
inductive Change where
  | push (value : UInt64)
  | set (index : Nat) (value : UInt64)
  | resize (length : Nat) (value : UInt64)
  | setWidth (bits : Nat)
  | bitCompress
  | shrinkToFit
  | copy

/-- The vector that an operation returns. -/
def Change.apply : Change → PackedVector → Except VectorError PackedVector
  | .push value, v => v.push value
  | .set index value, v => v.set index value
  | .resize length value, v => v.resize length value
  | .setWidth bits, v => do v.setWidth (← Width.ofNat? bits)
  | .bitCompress, v => return v.bitCompress
  | .shrinkToFit, v => return v.shrinkToFit
  | .copy, v => return v.copy

/-- The vector after an operation. One that is refused leaves it as it was. -/
def Change.after (change : Change) (v : PackedVector) : PackedVector :=
  match change.apply v with
  | .ok v' => v'
  | .error _ => v

/-! ## Operations as a program carries them out -/

/-- The element at position `i`, if there is one. -/
def fetch (c : Counter) (v : PackedVector) (i : Nat) : Except Halt (Option UInt64) :=
  if i < v.length then do
    c.lookUp v.buffer.size v.width i
    return some (v.element i)
  else return none

/-- Goes through all elements, as for the largest of them. -/
def scan (c : Counter) (v : PackedVector) : Except Halt Unit :=
  (List.range v.length).forM (c.lookUp v.buffer.size v.width)

/-- Moves all elements to width `w`: each is read at the old width and written at the new one. -/
def relocate (c : Counter) (v : PackedVector) (w : Width) : Except Halt Unit :=
  if w = v.width then return
  else if w.bits < v.width.bits then do
    (List.range v.length).forM fun i => do
      c.lookUp v.buffer.size v.width i
      c.lookUp v.buffer.size w i
    discard (c.wordsFor w v.length)
  else do
    let size ← c.wordsFor w v.length
    (List.range v.length).reverse.forM fun i => do
      c.lookUp size v.width i
      c.lookUp size w i

/-- What a program does with the storage before an operation is done. What is refused is refused before. -/
def Change.work (c : Counter) : Change → PackedVector → Except Halt Unit
  | .push value, v => do
    if v.width.Fits value then
      let size ← c.wordsFor v.width (v.length + 1)
      c.lookUp (max v.buffer.size size) v.width v.length
  | .set index value, v => do
    if index < v.length ∧ v.width.Fits value then
      c.lookUp v.buffer.size v.width index
  | .resize length value, v => do
    if v.width.Fits value then
      let size ← c.wordsFor v.width length
      if value ≠ 0 then
        (List.range' v.length (length - v.length)).forM (c.lookUp size v.width)
  | .setWidth bits, v =>
    match Width.ofNat? bits with
    | .ok w =>
      if w.bits < v.width.bits then do
        v.scan c
        if w.Fits v.maxValue then v.relocate c w
      else v.relocate c w
    | .error _ => return
  | .bitCompress, v => do
    v.scan c
    v.relocate c (.least v.maxValue)
  | .shrinkToFit, _ => return
  | .copy, _ => return

/-- The operation carried out: what it returns, unless the program ends on the way. -/
def Change.run (c : Counter) (change : Change) (v : PackedVector) :
    Except Halt (Except VectorError PackedVector) := do
  change.work c v
  return change.apply v

/-- Appends elements up to the first that does not fit, and tells why it stopped there. -/
def appendEach (c : Counter) (v : PackedVector) :
    List UInt64 → Except Halt (PackedVector × Option VectorError)
  | [] => return (v, none)
  | x :: rest => do
    match ← (Change.push x).run c v with
    | .ok v' => appendEach c v' rest
    | .error e => return (v, some e)

/-- The vector made, unless the program ends on the way. -/
def Source.run (c : Counter) : Source → Except Halt (Except VectorError PackedVector)
  | .empty bits => return (Source.empty bits).make
  | .replicate bits length value =>
    match Width.ofNat? bits with
    | .ok w => (Change.resize length value).run c (PackedVector.empty w)
    | .error e => return .error e
  | .ofList bits values =>
    match Width.ofNat? bits with
    | .ok w => do
      discard (c.wordsFor w values.length)
      match ← appendEach c (reserving w values.length) values with
      | (v, none) => return .ok v
      | (_, some e) => return .error e
    | .error e => return .error e

end PackedVector

end TextIndex
