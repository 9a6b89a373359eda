import Mathlib.Data.Nat.Fib.Basic
import TextIndex.CommandLine.Source
import TextIndex.Proofs.Index.Construct

/-!
# The shapes of generated texts

Each generator is a loop of its own kind, and what it makes has a description without the loop:

* A Fibonacci word is the two before it, one after the other, so that its length is the Fibonacci number.
* The Thue-Morse sequence reproduces itself when `ab` is put for every `a` and `ba` for every `b`. A number
  and its double have as many binary ones, and the number after the double has one more (`ones_eq`).
* The byte of runs at a position is told by the number of runs before it. The loop repeats a block in which
  each letter stands as often as a run is long (`getElem?_cycled`, `getElem?_block`).
* A drawn letter is a remainder counted from `a`, so the number of letters bounds it.

None of these bytes is zero, so every generated text can be indexed (`generated_shaped_and_indexable`).
-/

set_option autoImplicit false

namespace TextIndex.Generate

/-! ## Fibonacci words -/

/-- A Fibonacci word is the last one followed by the one before. -/
theorem fibonacci_add_three (n : Nat) : fibonacci (n + 3) = fibonacci (n + 2) ++ fibonacci (n + 1) := rfl

/-- The lengths of the Fibonacci words are the Fibonacci numbers. -/
theorem length_fibonacci (n : Nat) : (fibonacci n).length = Nat.fib n := by
  induction n using Nat.strongRecOn with
  | ind n ih =>
    match n with
    | 0 | 1 | 2 => rfl
    | n + 3 =>
      rw [fibonacci_add_three, List.length_append, ih (n + 2) (by omega), ih (n + 1) (by omega),
        Nat.fib_add_two (n := n + 1), Nat.add_comm]

/-- Fibonacci words have two letters. -/
theorem mem_fibonacci {b : UInt8} (n : Nat) : b ∈ fibonacci n → b = letterA ∨ b = letterB := by
  induction n using Nat.strongRecOn with
  | ind n ih =>
    match n with
    | 0 => exact fun h => absurd h List.not_mem_nil
    | 1 => exact fun h => Or.inr (List.mem_singleton.1 h)
    | 2 => exact fun h => Or.inl (List.mem_singleton.1 h)
    | n + 3 =>
      intro h
      rcases List.mem_append.1 h with h | h
      · exact ih (n + 2) (by omega) h
      · exact ih (n + 1) (by omega) h

/-! ## The Thue-Morse sequence -/

/-- The last binary digit, and the ones among the others. -/
theorem ones_eq (n : Nat) : ones n = ones (n / 2) + n % 2 := by
  by_cases hn : n < 2
  · obtain rfl | rfl : n = 0 ∨ n = 1 := by omega
    · decide
    · decide
  have hlog : n.log2 = (n / 2).log2 + 1 := by
    rw [Nat.log2_def, if_pos (Nat.not_lt.1 hn)]
  have hrest : n.testBit ∘ Nat.succ = (n / 2).testBit := funext fun i => Nat.testBit_succ n i
  unfold ones
  rw [hlog, List.range_succ_eq_map, List.countP_cons, List.countP_map, hrest, Nat.testBit_zero]
  congr 1
  rcases Nat.mod_two_eq_zero_or_one n with h | h <;> simp [h]

/-- The letter of a position. -/
def letterAt (i : Nat) : UInt8 := if ones i % 2 = 0 then letterA else letterB

/-- What is put for a letter. -/
def substituted (b : UInt8) : List UInt8 :=
  if b = letterA then [letterA, letterB] else [letterB, letterA]

/-- The two letters put for the letter at a place are those at twice that place. -/
theorem substituted_letterAt (i : Nat) :
    substituted (letterAt i) = [letterAt (2 * i), letterAt (2 * i + 1)] := by
  have heven : ones (2 * i) = ones i := by
    rw [ones_eq, Nat.mul_div_cancel_left i Nat.two_pos, Nat.mul_mod_right, Nat.add_zero]
  have hodd : ones (2 * i + 1) = ones i + 1 := by
    rw [ones_eq, show (2 * i + 1) / 2 = i by omega, show (2 * i + 1) % 2 = 1 by omega]
  unfold letterAt
  rw [heven, hodd]
  by_cases h : ones i % 2 = 0
  · rw [if_pos h, if_neg (by omega)]
    rfl
  · rw [if_neg h, if_pos (by omega)]
    rfl

/-- A longer word continues a shorter one. -/
theorem thueMorse_succ (len : Nat) : thueMorse (len + 1) = thueMorse len ++ [letterAt len] := by
  unfold thueMorse
  rw [List.range_succ, List.map_append]
  rfl

/-- Putting two letters for each gives the word of twice the length. -/
theorem thueMorse_two_mul (len : Nat) : thueMorse (2 * len) = (thueMorse len).flatMap substituted := by
  induction len with
  | zero => rfl
  | succ len ih =>
    rw [Nat.mul_succ, thueMorse_succ, thueMorse_succ, thueMorse_succ len, ih, List.flatMap_append,
      List.append_assoc]
    congr 1
    rw [List.flatMap_singleton, substituted_letterAt]
    rfl

/-- The sequence begins with `a`. -/
theorem head?_thueMorse (len : Nat) : (thueMorse (len + 1)).head? = some letterA := by
  have hfirst : letterAt 0 = letterA := by decide
  unfold thueMorse
  rw [List.range_succ_eq_map, ← hfirst]
  rfl

/-- Thue-Morse words have two letters. -/
theorem mem_thueMorse {b : UInt8} {len : Nat} (h : b ∈ thueMorse len) : b = letterA ∨ b = letterB := by
  obtain ⟨i, -, rfl⟩ := List.mem_map.1 h
  split
  · exact Or.inl rfl
  · exact Or.inr rfl

/-! ## Runs -/

section Cycled

variable {α : Type} {block ahead : List α} {x : α}

/-- An empty block repeats to nothing. -/
theorem cycled_nil (len : Nat) : cycled ([] : List α) len [] = [] := by
  cases len <;> rfl

/-- Repeating a block brings in no letters from elsewhere. -/
theorem mem_of_mem_cycled (len : Nat) (hx : x ∈ cycled block len ahead) : x ∈ block ∨ x ∈ ahead := by
  induction len generalizing ahead with
  | zero => cases hx
  | succ len ih =>
    cases ahead with
    | cons y ahead =>
      rcases List.mem_cons.1 hx with rfl | hx
      · exact Or.inr List.mem_cons_self
      · exact (ih hx).imp_right (List.mem_cons_of_mem y)
    | nil =>
      left
      cases block with
      | nil => cases hx
      | cons y block =>
        rcases List.mem_cons.1 hx with rfl | hx
        · exact List.mem_cons_self
        · exact (ih hx).elim id (List.mem_cons_of_mem y)

/-- A block that is not empty repeats to any length. -/
theorem length_cycled (hblock : block ≠ []) (len : Nat) : (cycled block len ahead).length = len := by
  induction len generalizing ahead with
  | zero => rfl
  | succ len ih =>
    cases ahead with
    | cons y ahead => exact congrArg (· + 1) ih
    | nil =>
      cases block with
      | nil => exact absurd rfl hblock
      | cons y block => exact congrArg (· + 1) ih

/-- At its end the block begins again. -/
theorem cycled_at_end (hblock : block ≠ []) (len : Nat) : cycled block len [] = cycled block len block := by
  cases len with
  | zero => rfl
  | succ len =>
    cases block with
    | nil => exact absurd rfl hblock
    | cons y block => rfl

/-- An item of the repeated block, begun at place `j` of it. -/
theorem getElem?_cycled {len i : Nat} (hi : i < len) {j : Nat} (hj : j < block.length) :
    (cycled block len (block.drop j))[i]? = block[(j + i) % block.length]? := by
  induction len generalizing i j with
  | zero => exact absurd hi (Nat.not_lt_zero i)
  | succ len ih =>
    rw [List.drop_eq_getElem_cons hj]
    cases i with
    | zero =>
      rw [Nat.add_zero j, Nat.mod_eq_of_lt hj, List.getElem?_eq_getElem hj]
      rfl
    | succ i =>
      have hi : i < len := Nat.lt_of_succ_lt_succ hi
      show (cycled block len (block.drop (j + 1)))[i]? = _
      rcases Nat.lt_or_eq_of_le (Nat.succ_le_of_lt hj) with hlt | hend
      · rw [ih hi hlt, show j + 1 + i = j + (i + 1) by omega]
      · have hpos : 0 < block.length := Nat.zero_lt_of_lt hj
        have hfront := ih hi hpos
        rw [List.drop_zero, Nat.zero_add] at hfront
        rw [List.drop_eq_nil_of_le hend.ge, cycled_at_end (List.ne_nil_of_length_pos hpos), hfront,
          show j + (i + 1) = block.length + i by omega, Nat.add_mod_left]

end Cycled

/-- A block in which each letter stands `size` times. -/
theorem getElem?_block {size : Nat} (hsize : 0 < size) (letters : List UInt8) (i : Nat) :
    (letters.flatMap (List.replicate size))[i]? = letters[i / size]? := by
  induction letters generalizing i with
  | nil => rfl
  | cons c letters ih =>
    rw [List.flatMap_cons]
    rcases Nat.lt_or_ge i size with hlt | hge
    · rw [List.getElem?_append_left (by simpa using hlt), Nat.div_eq_of_lt hlt]
      simp [hlt]
    · rw [List.getElem?_append_right (by simpa using hge), List.length_replicate, ih,
        Nat.div_eq_sub_div hsize hge, List.getElem?_cons_succ]

/-- The letters that an alphabet has for runs. -/
def letters (alphabet : List UInt8) : List UInt8 := alphabet.filter (· ≠ 0)

variable {alphabet : List UInt8} {run len : Nat}

/-- The text of runs repeats the block in which each letter makes one run. -/
theorem runs_eq (alphabet : List UInt8) (run len : Nat) : runs alphabet run len =
    cycled ((letters alphabet).flatMap (List.replicate (min run len))) len
      ((letters alphabet).flatMap (List.replicate (min run len))) := rfl

/-- Without runs, or without letters for them, there is no text. -/
theorem runs_of_none (h : run = 0 ∨ letters alphabet = []) : runs alphabet run len = [] := by
  have hblock : (letters alphabet).flatMap (List.replicate (min run len)) = [] := by
    rcases h with rfl | h
    · rw [Nat.zero_min]
      exact List.flatMap_eq_nil_iff.2 fun _ _ => rfl
    · rw [h]
      rfl
  rw [runs_eq, hblock, cycled_nil]

/-- The text of runs has only letters of its alphabet. -/
theorem mem_runs {b : UInt8} (h : b ∈ runs alphabet run len) : b ∈ letters alphabet := by
  have hmem : b ∈ (letters alphabet).flatMap (List.replicate (min run len)) :=
    (mem_of_mem_cycled len h).elim id id
  obtain ⟨c, hc, hb⟩ := List.mem_flatMap.1 hmem
  rwa [List.eq_of_mem_replicate hb]

section Runs

variable (hrun : run ≠ 0) (hletters : letters alphabet ≠ [])

include hrun hletters

/-- The block of a text that is not empty has a byte. -/
theorem block_ne_nil (hlen : 0 < len) :
    (letters alphabet).flatMap (List.replicate (min run len)) ≠ [] := by
  obtain ⟨c, rest, hcons⟩ := List.exists_cons_of_ne_nil hletters
  intro hnil
  have hnone := List.flatMap_eq_nil_iff.1 hnil c (by rw [hcons]; exact List.mem_cons_self)
  rw [List.replicate_eq_nil_iff] at hnone
  omega

/-- The text of runs is as long as asked for. -/
theorem length_runs : (runs alphabet run len).length = len := by
  cases len with
  | zero => rfl
  | succ len => exact length_cycled (block_ne_nil hrun hletters (Nat.succ_pos len)) (len + 1)

/-- The byte at a position is the letter whose turn it is after the runs before it. A run that is longer
than the text does not end in it. -/
theorem getElem?_runs {i : Nat} (hi : i < len) :
    (runs alphabet run len)[i]? = (letters alphabet)[i / run % (letters alphabet).length]? := by
  have hlen : 0 < len := Nat.zero_lt_of_lt hi
  have hsize : 0 < min run len := by omega
  have hpos := List.length_pos_of_ne_nil (block_ne_nil hrun hletters hlen)
  have hstart := getElem?_cycled hi hpos
  have hblock : ((letters alphabet).flatMap (List.replicate (min run len))).length =
      min run len * (letters alphabet).length := by
    simp [List.length_flatMap, Nat.mul_comm]
  have hturn : i / min run len = i / run := by
    rcases Nat.le_total run len with hle | hle
    · rw [Nat.min_eq_left hle]
    · rw [Nat.min_eq_right hle, Nat.div_eq_of_lt hi, Nat.div_eq_of_lt (by omega)]
  rw [List.drop_zero, Nat.zero_add] at hstart
  rw [runs_eq, hstart, getElem?_block hsize, hblock, Nat.mod_mul_right_div_self, hturn]

end Runs

/-! ## Pseudo-random letters -/

/-- There are as many letters as were drawn. -/
theorem length_drawAll (size : UInt64) (len : Nat) (state : UInt64) :
    (drawAll size len state).length = len := by
  induction len generalizing state with
  | zero => rfl
  | succ len ih => exact congrArg (· + 1) (ih (advance state))

/-- A drawn letter is one of the first ones. -/
theorem toNat_draw {size : UInt64} (hpos : 0 < size.toNat) (hle : size.toNat ≤ 26) (state : UInt64) :
    97 ≤ (draw size state).toNat ∧ (draw size state).toNat < 97 + size.toNat := by
  have hrest : ((state >>> 33) % size).toNat < size.toNat := by
    rw [UInt64.toNat_mod]
    exact Nat.mod_lt _ hpos
  have hbyte : (draw size state).toNat = 97 + ((state >>> 33) % size).toNat := by
    unfold draw
    rw [UInt8.toNat_add, UInt64.toNat_toUInt8, Nat.mod_eq_of_lt (a := UInt64.toNat _) (by omega)]
    exact Nat.mod_eq_of_lt (by show 97 + _ < 256; omega)
  omega

/-- Only the first letters of the alphabet are drawn, as many as it is said to have. -/
theorem mem_drawAll {size : UInt64} (hpos : 0 < size.toNat) (hle : size.toNat ≤ 26) {b : UInt8}
    {len : Nat} {state : UInt64} (hb : b ∈ drawAll size len state) :
    97 ≤ b.toNat ∧ b.toNat < 97 + size.toNat := by
  induction len generalizing state with
  | zero => cases hb
  | succ len ih =>
    rcases List.mem_cons.1 hb with rfl | hb
    · exact toNat_draw hpos hle (advance state)
    · exact ih hb

/-- A random text has at least one letter to draw from, and at most 26. -/
theorem mem_random {b : UInt8} {len sigma : Nat} {seed : UInt64} (hb : b ∈ random len sigma seed) :
    97 ≤ b.toNat ∧ b.toNat < 97 + max 1 (min sigma 26) := by
  have hsize : (max 1 (min sigma 26)).toUInt64.toNat = max 1 (min sigma 26) :=
    UInt64.toNat_ofNat_of_lt' (by show _ < 2 ^ 64; omega)
  have hletter := mem_drawAll (by omega) (by omega) hb
  omega

end TextIndex.Generate

/-! ## All generated texts -/

namespace TextIndex.CommandLine.Source

open Generate (letterA letterB letters substituted)

/-- A generated text has the shape that its generator promises. -/
def Shaped : Source → Prop
  | fibonacci n => (Generate.fibonacci n).length = Nat.fib n ∧
    (3 ≤ n → Generate.fibonacci n = Generate.fibonacci (n - 1) ++ Generate.fibonacci (n - 2))
  | thueMorse len => (Generate.thueMorse len).length = len ∧
    (∀ b ∈ Generate.thueMorse len, b = letterA ∨ b = letterB) ∧
    (Generate.thueMorse (len + 1)).head? = some letterA ∧
    Generate.thueMorse len <+: Generate.thueMorse (len + 1) ∧
    Generate.thueMorse (2 * len) = (Generate.thueMorse len).flatMap substituted
  | runs alphabet run len =>
    (run = 0 ∨ (∀ b ∈ alphabet, b = 0) → Generate.runs alphabet run len = []) ∧
    (run ≠ 0 → (∃ b ∈ alphabet, b ≠ 0) → (Generate.runs alphabet run len).length = len ∧ ∀ i < len,
      (Generate.runs alphabet run len)[i]? = (letters alphabet)[i / run % (letters alphabet).length]?)
  | random len sigma seed => (Generate.random len sigma seed).length = len ∧
    ∀ b ∈ Generate.random len sigma seed,
      letterA.toNat ≤ b.toNat ∧ b.toNat < letterA.toNat + max 1 (min sigma 26)

/-- Every source makes a text of its shape. -/
theorem shaped (source : Source) : source.Shaped := by
  cases source with
  | fibonacci n =>
    refine ⟨Generate.length_fibonacci n, fun hn => ?_⟩
    obtain ⟨m, rfl⟩ := Nat.exists_eq_add_of_le' hn
    exact Generate.fibonacci_add_three m
  | thueMorse len =>
    have hnext := Generate.thueMorse_succ len
    refine ⟨?_, fun _ => Generate.mem_thueMorse, Generate.head?_thueMorse len,
      ⟨_, hnext.symm⟩, Generate.thueMorse_two_mul len⟩
    unfold Generate.thueMorse
    rw [List.length_map, List.length_range]
  | runs alphabet run len =>
    have hletters : letters alphabet = [] ↔ ∀ b ∈ alphabet, b = 0 := by
      unfold Generate.letters
      simp
    refine ⟨fun hnone => Generate.runs_of_none (hnone.imp_right hletters.2), fun hrun hsome => ?_⟩
    obtain ⟨b, hb, hne⟩ := hsome
    have hletters : letters alphabet ≠ [] := fun hnil => hne (hletters.1 hnil b hb)
    exact ⟨Generate.length_runs hrun hletters, fun i => Generate.getElem?_runs hrun hletters⟩
  | random len sigma seed =>
    exact ⟨Generate.length_drawAll _ len seed, fun _ => Generate.mem_random⟩

/-- No generated byte is the sentinel. -/
theorem ne_zero_of_mem_bytes {source : Source} {b : UInt8} (hb : b ∈ source.bytes) : b ≠ 0 := by
  have hletter : b = letterA ∨ b = letterB → b ≠ 0 := by
    rintro (rfl | rfl)
    · decide
    · decide
  cases source with
  | fibonacci n => exact hletter (Generate.mem_fibonacci n hb)
  | thueMorse len => exact hletter (Generate.mem_thueMorse hb)
  | runs alphabet run len => simpa using (List.mem_filter.1 (Generate.mem_runs hb)).2
  | random len sigma seed =>
    rintro rfl
    exact absurd (Generate.mem_random hb).1 (by decide)

/-- Whatever the parameters, a generated text has the shape of its generator and no zero byte, and an index
over it is made. -/
theorem generated_shaped_and_indexable (source : Source) :
    source.Shaped ∧ 0 ∉ source.bytes ∧
      ∃ ix, Index.new source.bytes.toArray {} = .ok ix ∧
        ix.store.text.body = source.bytes.toArray := by
  refine ⟨source.shaped, fun hzero => ne_zero_of_mem_bytes hzero rfl, ?_⟩
  let text : SentinelText :=
    ⟨source.bytes.toArray, fun b hb => ne_zero_of_mem_bytes (List.mem_toArray.1 hb)⟩
  exact ⟨_, Index.new_of_text text ⟨32, by decide, by decide⟩ .delayed, rfl⟩

end TextIndex.CommandLine.Source
