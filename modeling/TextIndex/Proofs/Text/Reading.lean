import TextIndex.Text.Numeral
import TextIndex.Text.Pieces

/-!
# Numerals and pieces of a text

What a number is read from, and what a text is cut into, said without reading and cutting.

* A number is read exactly from its numerals, as long as it is not beyond the limit (`readNat_eq_ok_iff`). The
  limit is checked digit by digit; that is enough, because further digits never make a number smaller.
* The pieces of a text are the only list of texts without the separator that gives the text when the
  separator is put between them (`pieces_eq_iff`).
-/

set_option autoImplicit false

namespace TextIndex.Text

/-! ## Numerals -/

/-- The decimal digits of a number, at least one of them and perhaps with zeros in front. -/
structure Digits (digits : List Char) (n : Nat) : Prop where
  ne_nil : digits ≠ []
  isDigit : ∀ c ∈ digits, c.isDigit
  value_eq : Nat.ofDigitChars 10 digits 0 = n

/-- The text is a numeral of the number: its digits, perhaps after a plus sign. -/
inductive Numeral (s : String) (n : Nat) : Prop where
  | unsigned (h : Digits s.toList n)
  | signed {digits : List Char} (hs : s.toList = '+' :: digits) (h : Digits digits n)

variable {limit n m : Nat} {beyond : NumeralError} {s : String} {c : Char} {cs : List Char}

/-- Digits that are appended to a number make it no smaller. -/
theorem le_ofDigitChars (cs : List Char) : ∀ n, n ≤ Nat.ofDigitChars 10 cs n := by
  induction cs with
  | nil => exact fun n => Nat.le_refl n
  | cons c cs ih =>
    intro n
    rw [Nat.ofDigitChars_cons]
    have hlonger := ih (10 * n + (c.toNat - '0'.toNat))
    omega

/-- A further digit is taken in unless the number becomes too large. -/
theorem readDigits_cons_of_digit (hc : c.isDigit) (n : Nat) (cs : List Char) :
    readDigits limit beyond n (c :: cs) =
      if limit < 10 * n + (c.toNat - '0'.toNat) then .error beyond
      else readDigits limit beyond (10 * n + (c.toNat - '0'.toNat)) cs := by
  have hdigit : digit? c = some (c.toNat - '0'.toNat) := if_pos hc
  rw [readDigits, hdigit]

/-- Anything but a digit stops the reading. -/
theorem readDigits_cons_of_not_digit (hc : ¬ c.isDigit) (n : Nat) (cs : List Char) :
    readDigits limit beyond n (c :: cs) = .error .invalidDigit := by
  have hdigit : digit? c = none := if_neg hc
  rw [readDigits, hdigit]

/-- Digits are read onto a number as long as the result is within the limit. -/
theorem readDigits_eq_ok_iff (hn : n ≤ limit) : readDigits limit beyond n cs = .ok m ↔
    (∀ c ∈ cs, c.isDigit) ∧ Nat.ofDigitChars 10 cs n = m ∧ m ≤ limit := by
  induction cs generalizing n with
  | nil =>
    rw [readDigits, Except.ok.injEq]
    constructor
    · rintro rfl
      exact ⟨by simp, rfl, hn⟩
    · exact fun h => h.2.1
  | cons c cs ih =>
    by_cases hc : c.isDigit
    · rw [readDigits_cons_of_digit hc, List.forall_mem_cons, Nat.ofDigitChars_cons]
      by_cases hbeyond : limit < 10 * n + (c.toNat - '0'.toNat)
      · rw [if_pos hbeyond]
        constructor
        · intro h
          cases h
        · rintro ⟨-, rfl, hle⟩
          have hlonger := le_ofDigitChars cs (10 * n + (c.toNat - '0'.toNat))
          omega
      · rw [if_neg hbeyond, ih (Nat.not_lt.1 hbeyond)]
        simp [hc]
    · rw [readDigits_cons_of_not_digit hc, List.forall_mem_cons]
      simp [hc]

/-- All digits of a numeral without a sign. -/
theorem readDigits_zero_eq_ok_iff (hne : cs ≠ []) :
    readDigits limit beyond 0 cs = .ok n ↔ Digits cs n ∧ n ≤ limit := by
  rw [readDigits_eq_ok_iff (Nat.zero_le limit)]
  exact ⟨fun h => ⟨⟨hne, h.1, h.2.1⟩, h.2.2⟩, fun h => ⟨h.1.isDigit, h.1.value_eq, h.2⟩⟩

/-- A plus sign is no digit. -/
theorem not_digits_plus : ¬ Digits ('+' :: cs) n := fun h =>
  absurd (h.isDigit '+' List.mem_cons_self) (by decide)

/-- A number within the limit is read from its numerals and from nothing else. -/
theorem readNat_eq_ok_iff : readNat limit s = .ok n ↔ Numeral s n ∧ n ≤ limit := by
  have hsigned : ∀ {digits}, s.toList = '+' :: digits → (Numeral s n ↔ Digits digits n) := by
    intro digits hs
    constructor
    · rintro (h | ⟨hs', h⟩)
      · rw [hs] at h
        exact absurd h not_digits_plus
      · rw [hs] at hs'
        injection hs' with _ hdigits
        rwa [hdigits]
    · exact .signed hs
  unfold readNat
  split
  · next hs =>
    constructor
    · intro h
      cases h
    · rintro ⟨h | ⟨hs', -⟩, -⟩
      · exact absurd hs h.ne_nil
      · cases hs.symm.trans hs'
  · next hs =>
    rw [hsigned hs]
    constructor
    · intro h
      cases h
    · exact fun h => absurd rfl h.1.ne_nil
  · next digits hne hs =>
    rw [hsigned hs]
    exact readDigits_zero_eq_ok_iff hne
  · next hne _ hplus =>
    have hunsigned : Numeral s n ↔ Digits s.toList n := by
      constructor
      · rintro (h | ⟨hs, -⟩)
        · exact h
        · exact absurd hs (hplus _)
      · exact .unsigned
    rw [hunsigned]
    exact readDigits_zero_eq_ok_iff hne

/-! ## Pieces -/

/-- The parts are what stands between the separators of a text. -/
structure Between (sep : Char) (s : String) (parts : List String) : Prop where
  ne_nil : parts ≠ []
  not_mem : ∀ part ∈ parts, sep ∉ part.toList
  intercalate_eq : (String.singleton sep).intercalate parts = s

/-- Cutting is the library's splitting. -/
theorem cut_eq_splitOn (sep : Char) (cs : List Char) : cut sep cs = cs.splitOn sep := by
  induction cs with
  | nil => rfl
  | cons c rest ih =>
    rw [List.splitOn_cons_eq_if_modifyHead, cut, ← ih]
    by_cases hc : c = sep
    · rw [if_pos hc, if_pos (beq_iff_eq.2 hc)]
    · rw [if_neg hc, if_neg (mt beq_iff_eq.1 hc)]
      cases hrest : cut sep rest with
      | nil => exact absurd hrest (cut_ne_nil sep rest)
      | cons piece pieces => rfl

/-- A text is cut at its separators into the parts between them, and into no others. -/
theorem pieces_eq_iff {sep : Char} {parts : List String} :
    pieces sep s = parts ↔ Between sep s parts := by
  have hlists : ∀ ps : List (List Char), (ps.map String.ofList).map String.toList = ps := by
    intro ps
    simp [Function.comp_def]
  constructor
  · rintro rfl
    refine ⟨?_, ?_, ?_⟩
    · unfold pieces
      simpa using cut_ne_nil sep s.toList
    · intro part hpart
      obtain ⟨piece, hpiece, rfl⟩ := List.mem_map.1 hpart
      rw [String.toList_ofList]
      exact not_mem_of_mem_cut hpiece
    · rw [← String.toList_inj, String.toList_intercalate]
      unfold pieces
      rw [hlists, String.toList_singleton, intercalate_cut]
  · intro h
    have hcut : cut sep s.toList = parts.map String.toList := by
      rw [← h.intercalate_eq, String.toList_intercalate, String.toList_singleton, cut_eq_splitOn]
      apply List.splitOn_intercalate
      · intro piece hpiece
        obtain ⟨part, hpart, rfl⟩ := List.mem_map.1 hpiece
        exact h.not_mem part hpart
      · simpa using h.ne_nil
    unfold pieces
    rw [hcut]
    simp [Function.comp_def]

end TextIndex.Text
