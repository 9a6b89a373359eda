import TextIndex.Packed.Field

/-!
# Packed vectors

A vector of unsigned 64-bit numbers, each stored in the same number of bits, one after the other in
64-bit words. `toList` is its meaning: two vectors are equal when they hold the same numbers,
whatever their widths. The main operations are

* `get?`, `set`, `push`, `resize`, as on a list, refused when a position or a value does not fit;
* `setWidth` and `bitCompress`, which move every element to another width inside the same storage.
-/

set_option autoImplicit false

namespace TextIndex

/-- Numbers packed back to back at one width. -/
structure PackedVector where
  buffer : Buffer
  length : Nat
  width : Width

namespace PackedVector

/-- The vector without elements. -/
def empty (w : Width) : PackedVector := ⟨.empty, 0, w⟩

/-- No elements, and storage for exactly `count` of them. -/
def reserving (w : Width) (count : Nat) : PackedVector := ⟨.reserving (w.wordsFor count), 0, w⟩

/-- The element at a position below the length. -/
def element (v : PackedVector) (i : Nat) : UInt64 := Field.read v.buffer.words v.width i

/-- The element at position `i`, if there is one. -/
def get? (v : PackedVector) (i : Nat) : Option UInt64 :=
  if i < v.length then some (v.element i) else none

/-- The elements in order. -/
def toList (v : PackedVector) : List UInt64 := (List.range v.length).map v.element

/-- Same numbers in the same order. -/
instance : BEq PackedVector := ⟨fun v w => v.length == w.length && v.toList == w.toList⟩

/-- No elements. -/
def isEmpty (v : PackedVector) : Bool := v.length == 0

/-- The largest element, and zero where there is none. -/
def maxValue (v : PackedVector) : UInt64 := v.toList.foldl max 0

/-- Bits that the elements take, as the 64-bit storage counter has them. -/
def bitSize (v : PackedVector) : Nat := v.length * v.width.bits % UInt64.size

/-- Bytes reserved. -/
def heapBytes (v : PackedVector) : Nat := v.buffer.heapBytes

/-- The vector with field `i`, at width `w`, overwritten. -/
def writeAt (v : PackedVector) (w : Width) (i : Nat) (value : UInt64) : PackedVector :=
  match v with
  | ⟨buffer, length, width⟩ =>
    ⟨buffer.update (Field.write · w i value) fun _ => by simp, length, width⟩

/-- A value is written into the words as a field. -/
@[simp] theorem words_writeAt (v : PackedVector) (w : Width) (i : Nat) (value : UInt64) :
    (v.writeAt w i value).buffer.words = Field.write v.buffer.words w i value := rfl

/-- Writing reserves nothing. -/
@[simp] theorem capacity_writeAt (v : PackedVector) (w : Width) (i : Nat) (value : UInt64) :
    (v.writeAt w i value).buffer.capacity = v.buffer.capacity := rfl

/-- Writing keeps the number of elements. -/
@[simp] theorem length_writeAt (v : PackedVector) (w : Width) (i : Nat) (value : UInt64) :
    (v.writeAt w i value).length = v.length := rfl

/-- Writing keeps the width, also when the field written has another one. -/
@[simp] theorem width_writeAt (v : PackedVector) (w : Width) (i : Nat) (value : UInt64) :
    (v.writeAt w i value).width = v.width := rfl

/-- Replaces the element at position `i`; the position is checked before the value. -/
def set (v : PackedVector) (i : Nat) (value : UInt64) : Except VectorError PackedVector :=
  if i < v.length then do
    v.width.check value
    return v.writeAt v.width i value
  else .error (.indexOutOfBounds i v.length)

/-- Appends one element. -/
def push (v : PackedVector) (value : UInt64) : Except VectorError PackedVector :=
  match v with
  | ⟨buffer, length, width⟩ => do
    width.check value
    let grown : PackedVector := ⟨buffer.extendTo (width.wordsFor (length + 1)), length + 1, width⟩
    return grown.writeAt width length value

/-- Appends elements up to the first that does not fit, and tells why it stopped there. -/
def pushEach (v : PackedVector) : List UInt64 → PackedVector × Option VectorError
  | [] => (v, none)
  | x :: rest =>
    match v.push x with
    | .ok v' => v'.pushEach rest
    | .error e => (v, some e)

/-- The vector of the given numbers, with storage for exactly that many. -/
def ofList? (w : Width) (values : List UInt64) : Except VectorError PackedVector :=
  match (reserving w values.length).pushEach values with
  | (v, none) => .ok v
  | (_, some e) => .error e

/-- The last word without the bits past the last element. -/
def clearTail (v : PackedVector) : PackedVector :=
  let used := v.bitSize % 64
  if used = 0 then v
  else
    { v with
      buffer := v.buffer.update
        (fun words => words.modify (words.size - 1) (· &&& ((1 <<< used.toUInt64) - 1)))
        fun _ => by simp }

/-- Writes `value` at the positions from `start` up to the length. -/
def fillFrom (v : PackedVector) (start : Nat) (value : UInt64) : PackedVector :=
  (List.range' start (v.length - start)).foldl (fun v i => v.writeAt v.width i value) v

/-- Exactly `length` elements: the first ones stay, and `value` stands where there were none. -/
def resize (v : PackedVector) (length : Nat) (value : UInt64) :
    Except VectorError PackedVector := do
  v.width.check value
  let resized := { v with buffer := v.buffer.resize (v.width.wordsFor length), length }
  return if length < v.length then resized.clearTail
    else if value = 0 then resized
    else resized.fillFrom v.length value

/-- The vector of `length` times `value`. -/
def replicate? (w : Width) (length : Nat) (value : UInt64) : Except VectorError PackedVector :=
  (empty w).resize length value

/-- Reserves only the words in use. -/
def shrinkToFit (v : PackedVector) : PackedVector := { v with buffer := v.buffer.fit }

/-- A copy in storage of its own, which reserves only the words in use. -/
def copy (v : PackedVector) : PackedVector := v.shrinkToFit

/-- One step of moving to another width: element `i` is read at width `source` and written at
width `target`. -/
def moveField (source target : Width) (v : PackedVector) (i : Nat) : PackedVector :=
  v.writeAt target i (Field.read v.buffer.words source i)

/-- Moves every element to a narrower width. Each lands at or before the bits it came from, so going
forward no element is overwritten before it is read. -/
def narrow (v : PackedVector) (w : Width) : PackedVector :=
  let moved := (List.range v.length).foldl (moveField v.width w) v
  let cut : PackedVector := ⟨moved.buffer.truncate (w.wordsFor v.length), v.length, w⟩
  cut.clearTail

/-- Moves every element to a wider width. Each lands at or after the bits it came from, so going
backward no element is overwritten before it is read. -/
def widen (v : PackedVector) (w : Width) : PackedVector :=
  let roomy := { v with buffer := v.buffer.resize (w.wordsFor v.length) }
  { (List.range v.length).foldr (fun i u => moveField v.width w u i) roomy with width := w }

/-- The same elements at width `w`, which must hold each of them. -/
def repack (v : PackedVector) (w : Width) : PackedVector :=
  if w = v.width then v
  else if w.bits < v.width.bits then v.narrow w
  else v.widen w

/-- The same elements at width `w`, refused when the largest does not fit. -/
def setWidth (v : PackedVector) (w : Width) : Except VectorError PackedVector := do
  if w.bits < v.width.bits then
    w.check v.maxValue
  return v.repack w

/-- The same elements at the least width that holds them, in exactly the words they need. -/
def bitCompress (v : PackedVector) : PackedVector :=
  (v.repack (.least v.maxValue)).shrinkToFit

/-- The list of elements has one for each position. -/
@[simp] theorem length_toList (v : PackedVector) : v.toList.length = v.length := by
  simp [toList]

/-- Looking up a position is looking it up in the list of elements. -/
theorem getElem?_toList (v : PackedVector) (i : Nat) : v.toList[i]? = v.get? i := by
  unfold toList get?
  by_cases h : i < v.length
  · simp [h]
  · simp [h]

end PackedVector

end TextIndex
