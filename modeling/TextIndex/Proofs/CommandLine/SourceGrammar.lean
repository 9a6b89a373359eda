import Mathlib.Algebra.Group.Nat.Defs
import TextIndex.CommandLine.Source
import TextIndex.Proofs.Loops
import TextIndex.Proofs.Text.Reading

/-!
# Which specifications name a text

The specifications of generated texts are a small language: the name of a generator and as many arguments
as it has, with colons between them (`Names`). Exactly these are read, and what is read is the source that is
named (`reads_what_names`).

Numbers are looked up by their place, and the reader would report a place that is not there. It never has to,
because the parts are counted before any is looked at (`argument_ne_missing`).
-/

set_option autoImplicit false

namespace TextIndex.CommandLine

open Text (Between Numeral)

/-- The parts of a specification name a source. -/
inductive Names : List String → Source → Prop where
  | fibonacci {a : String} {n : Nat} (ha : Numeral a n) (hn : n < 2 ^ 64) :
    Names ["fibonacci", a] (.fibonacci n)
  | thueMorse {a : String} {len : Nat} (ha : Numeral a len) (hlen : len < 2 ^ 64) :
    Names ["thue-morse", a] (.thueMorse len)
  | runs {alphabet a b : String} {run len : Nat} (ha : Numeral a run) (hrun : run < 2 ^ 64)
    (hb : Numeral b len) (hlen : len < 2 ^ 64) :
    Names ["runs", alphabet, a, b] (.runs alphabet.toUTF8.toList run len)
  | random {a b c : String} {len sigma : Nat} {seed : UInt64} (ha : Numeral a len)
    (hlen : len < 2 ^ 64) (hb : Numeral b sigma) (hsigma : sigma ≤ 255) (hc : Numeral c seed.toNat) :
    Names ["random", a, b, c] (.random len sigma seed)

namespace Source

variable {parts : List String} {i n : Nat}

/-! ## Arguments -/

/-- An argument is read if it is there, is a numeral, and fits into 64 bits. -/
theorem argument_eq_ok_iff :
    argument parts i = .ok n ↔ ∃ part, parts[i]? = some part ∧ Numeral part n ∧ n < 2 ^ 64 := by
  unfold argument
  cases hpart : parts[i]? with
  | none => simp
  | some part =>
    have hread : Text.readNat (UInt64.size - 1) part = .ok n ↔ Numeral part n ∧ n < 2 ^ 64 := by
      rw [Text.readNat_eq_ok_iff]
      exact and_congr_right fun _ => Nat.le_sub_one_iff_lt (by decide)
    simp only [Option.some.injEq, exists_eq_left']
    rw [← hread]
    cases Text.readNat (UInt64.size - 1) part <;> simp

/-- A number of letters is read if it is there, is a numeral, and fits into a byte. -/
theorem letterCount_eq_ok_iff :
    letterCount parts i = .ok n ↔ ∃ part, parts[i]? = some part ∧ Numeral part n ∧ n ≤ 255 := by
  unfold letterCount
  rw [bind_eq_ok]
  constructor
  · rintro ⟨m, hm, hend⟩
    obtain ⟨part, hpart, hnumeral, -⟩ := argument_eq_ok_iff.1 hm
    split at hend
    · next hle =>
      cases hend
      exact ⟨part, hpart, hnumeral, hle⟩
    · cases hend
  · rintro ⟨part, hpart, hnumeral, hle⟩
    have hlt : n < 2 ^ 64 := Nat.lt_of_le_of_lt hle (by decide)
    exact ⟨n, argument_eq_ok_iff.2 ⟨part, hpart, hnumeral, hlt⟩, if_pos hle⟩

/-- What is there is not missing. -/
theorem argument_ne_missing (hi : i < parts.length) : argument parts i ≠ .error .missingArgument := by
  unfold argument
  rw [List.getElem?_eq_getElem hi]
  dsimp only
  split <;> simp

/-- A number of letters that is there is not reported as missing. -/
theorem letterCount_ne_missing (hi : i < parts.length) :
    letterCount parts i ≠ .error .missingArgument := by
  intro h
  rcases bind_eq_error.1 h with h | ⟨n, -, h⟩
  · exact argument_ne_missing hi h
  · split at h <;> cases h

/-! ## Specifications -/

variable {spec name : String} {source : Source}

/-- A source of two parts is a name and an argument. -/
theorem eq_of_two (hname : parts.headD "" = name) (hcount : parts.length = 2) :
    ∃ a, parts = [name, a] := by
  obtain ⟨x, a, rfl⟩ := List.length_eq_two.1 hcount
  exact ⟨a, by rw [← hname]; rfl⟩

/-- A source of four parts is a name and three arguments. -/
theorem eq_of_four (hname : parts.headD "" = name) (hcount : parts.length = 4) :
    ∃ a b c, parts = [name, a, b, c] := by
  match parts, hcount with
  | [x, a, b, c], _ => exact ⟨a, b, c, by rw [← hname]; rfl⟩

/-- What is read is named. -/
theorem names_of_read (h : ofString? spec = .ok source) : Names (Text.pieces ':' spec) source := by
  unfold ofString? at h
  generalize Text.pieces ':' spec = parts at h ⊢
  dsimp only at h
  split at h
  · next hname hcount =>
    obtain ⟨a, rfl⟩ := eq_of_two hname hcount
    obtain ⟨n, hn, hend⟩ := bind_eq_ok.1 h
    obtain ⟨_, ⟨⟩, ha, hn⟩ := argument_eq_ok_iff.1 hn
    cases hend
    exact .fibonacci ha hn
  · next hname hcount =>
    obtain ⟨a, rfl⟩ := eq_of_two hname hcount
    obtain ⟨len, hlen, hend⟩ := bind_eq_ok.1 h
    obtain ⟨_, ⟨⟩, ha, hlen⟩ := argument_eq_ok_iff.1 hlen
    cases hend
    exact .thueMorse ha hlen
  · next hname hcount =>
    obtain ⟨alphabet, a, b, rfl⟩ := eq_of_four hname hcount
    obtain ⟨run, hrun, h⟩ := bind_eq_ok.1 h
    obtain ⟨len, hlen, hend⟩ := bind_eq_ok.1 h
    obtain ⟨_, ⟨⟩, ha, hrun⟩ := argument_eq_ok_iff.1 hrun
    obtain ⟨_, ⟨⟩, hb, hlen⟩ := argument_eq_ok_iff.1 hlen
    cases hend
    exact .runs ha hrun hb hlen
  · next hname hcount =>
    obtain ⟨a, b, c, rfl⟩ := eq_of_four hname hcount
    obtain ⟨len, hlen, h⟩ := bind_eq_ok.1 h
    obtain ⟨sigma, hsigma, h⟩ := bind_eq_ok.1 h
    obtain ⟨seed, hseed, hend⟩ := bind_eq_ok.1 h
    obtain ⟨_, ⟨⟩, ha, hlen⟩ := argument_eq_ok_iff.1 hlen
    obtain ⟨_, ⟨⟩, hb, hsigma⟩ := letterCount_eq_ok_iff.1 hsigma
    obtain ⟨_, ⟨⟩, hc, hseed⟩ := argument_eq_ok_iff.1 hseed
    cases hend
    exact .random ha hlen hb hsigma (by rwa [UInt64.toNat_ofNat_of_lt' hseed])
  · cases h

/-- What is named is read. -/
theorem read_of_names (h : Names (Text.pieces ':' spec) source) : ofString? spec = .ok source := by
  unfold ofString?
  generalize Text.pieces ':' spec = parts at h ⊢
  cases h with
  | fibonacci ha hn =>
    exact bind_eq_ok.2 ⟨_, argument_eq_ok_iff.2 ⟨_, rfl, ha, hn⟩, rfl⟩
  | thueMorse ha hlen =>
    exact bind_eq_ok.2 ⟨_, argument_eq_ok_iff.2 ⟨_, rfl, ha, hlen⟩, rfl⟩
  | runs ha hrun hb hlen =>
    refine bind_eq_ok.2 ⟨_, argument_eq_ok_iff.2 ⟨_, rfl, ha, hrun⟩, ?_⟩
    exact bind_eq_ok.2 ⟨_, argument_eq_ok_iff.2 ⟨_, rfl, hb, hlen⟩, rfl⟩
  | random ha hlen hb hsigma hc =>
    refine bind_eq_ok.2 ⟨_, argument_eq_ok_iff.2 ⟨_, rfl, ha, hlen⟩, ?_⟩
    refine bind_eq_ok.2 ⟨_, letterCount_eq_ok_iff.2 ⟨_, rfl, hb, hsigma⟩, ?_⟩
    refine bind_eq_ok.2 ⟨_, argument_eq_ok_iff.2 ⟨_, rfl, hc, UInt64.toNat_lt _⟩, ?_⟩
    exact congrArg (fun seed => Except.ok (random _ _ seed)) UInt64.ofNat_toNat

/-- The parts are counted before they are looked at. -/
theorem ofString?_ne_missing : ofString? spec ≠ .error .missingArgument := by
  intro h
  unfold ofString? at h
  generalize Text.pieces ':' spec = parts at h
  dsimp only at h
  split at h
  · next hcount =>
    rcases bind_eq_error.1 h with h | ⟨_, -, ⟨⟩⟩
    exact argument_ne_missing (by omega) h
  · next hcount =>
    rcases bind_eq_error.1 h with h | ⟨_, -, ⟨⟩⟩
    exact argument_ne_missing (by omega) h
  · next hcount =>
    rcases bind_eq_error.1 h with h | ⟨_, -, h⟩
    · exact argument_ne_missing (by omega) h
    rcases bind_eq_error.1 h with h | ⟨_, -, ⟨⟩⟩
    exact argument_ne_missing (by omega) h
  · next hcount =>
    rcases bind_eq_error.1 h with h | ⟨_, -, h⟩
    · exact argument_ne_missing (by omega) h
    rcases bind_eq_error.1 h with h | ⟨_, -, h⟩
    · exact letterCount_ne_missing (by omega) h
    rcases bind_eq_error.1 h with h | ⟨_, -, ⟨⟩⟩
    exact argument_ne_missing (by omega) h
  · cases h

/-- A text that starts with a character does so with anything behind it. -/
theorem head?_append {s : String} {c : Char} (h : s.toList.head? = some c) (t : String) :
    (s ++ t).toList.head? = some c := by
  rw [String.toList_append, List.head?_append, h]
  rfl

/-- The refusals are told apart by how their sentences begin. -/
theorem message_eq_missing {e : SourceError} (h : e.message = "missing generator argument") :
    e = .missingArgument := by
  have hfirst : e.message.toList.head? = some 'm' := by
    rw [h]
    decide
  unfold SourceError.message at hfirst
  cases e with
  | missingArgument => rfl
  | unknownGenerator spec =>
    have hunknown : "unknown generator ".toList.head? = some 'u' := by decide
    cases (head?_append hunknown _).symm.trans hfirst
  | invalidArgument part =>
    have hinvalid : "invalid generator argument ".toList.head? = some 'i' := by decide
    cases (head?_append hinvalid _).symm.trans hfirst
  | tooManyLetters =>
    have hnumber : Text.NumeralError.tooLarge.message.toList.head? = some 'n' := by decide
    cases hnumber.symm.trans hfirst

/-- A specification is read exactly when the parts between its colons name a source, and what is read is
this source. No refusal speaks of an argument that is missing. -/
theorem reads_what_names (spec : String) :
    (∀ source, ofString? spec = .ok source ↔ ∃ parts, Between ':' spec parts ∧ Names parts source) ∧
      ¬ ∃ e, ofString? spec = .error e ∧ e.message = "missing generator argument" := by
  refine ⟨fun source => ⟨fun h => ?_, ?_⟩, ?_⟩
  · exact ⟨_, Text.pieces_eq_iff.1 rfl, names_of_read h⟩
  · rintro ⟨parts, hparts, h⟩
    rw [← Text.pieces_eq_iff] at hparts
    subst hparts
    exact read_of_names h
  · rintro ⟨e, hrefused, hmessage⟩
    rw [message_eq_missing hmessage] at hrefused
    exact ofString?_ne_missing hrefused

end Source

end TextIndex.CommandLine
