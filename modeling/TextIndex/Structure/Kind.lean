import TextIndex.Plan.Error
import TextIndex.Text.Blank

/-!
# The structures over a text

Six arrays can be built over a text. This file names them and says what each is built from:

* the suffix array lists the positions of the suffixes in their order, and its inverse appears with
  it;
* the phi array takes a suffix to the one before it in that order;
* the permuted prefix array holds, by position, how far those two agree, and the prefix array holds
  the same by rank;
* the transform holds the byte before each suffix, in the order of the suffixes.
-/

set_option autoImplicit false

namespace TextIndex

/-- A structure that can be built over a text. -/
inductive Kind where
  /-- Positions of the suffixes in lexicographic order. -/
  | suffixArray
  /-- Rank of each suffix. -/
  | inverse
  /-- For each suffix the one before it in the order. -/
  | phi
  /-- Common prefix of each suffix with the one before it, by position. -/
  | plcp
  /-- Common prefix of each suffix with the one before it, by rank. -/
  | lcp
  /-- Byte before each suffix, by rank. -/
  | bwt
deriving DecidableEq, Repr

namespace Kind

/-- Every kind, in the order in which they are shown. -/
def all : List Kind := [suffixArray, inverse, phi, plcp, lcp, bwt]

/-- Every kind is listed. -/
theorem mem_all (k : Kind) : k ∈ all := by cases k <;> decide

/-- The place of a kind in `all`. -/
def index : Kind → Fin 6
  | suffixArray => 0
  | inverse => 1
  | phi => 2
  | plcp => 3
  | lcp => 4
  | bwt => 5

/-- Different kinds have different places. -/
theorem index_inj {j k : Kind} : j.index = k.index ↔ j = k := by
  cases j <;> cases k <;> decide

/-- The short name by which a user selects a kind. -/
def name : Kind → String
  | suffixArray => "sa"
  | inverse => "isa"
  | phi => "phi"
  | plcp => "plcp"
  | lcp => "lcp"
  | bwt => "bwt"

/-- The full name, as it stands in messages. -/
def title : Kind → String
  | suffixArray => "SuffixArray"
  | inverse => "InverseSuffixArray"
  | phi => "Phi"
  | plcp => "Plcp"
  | lcp => "Lcp"
  | bwt => "Bwt"

instance : KindName Kind := ⟨title⟩

/-- The entries are positions of the text. -/
def holdsPositions : Kind → Bool
  | suffixArray | inverse | phi => true
  | plcp | lcp | bwt => false

/-- The kind of a name; blanks around it and the case of its letters do not matter. -/
def ofString? (s : String) : Option Kind := all.find? fun k => k.name == Text.foldCase (Text.trim s)

/-- The sentence shown for a name that no kind has. -/
def unknownMessage (s : String) : String := s!"unknown data structure {Text.quoted (Text.trim s)}"

/-- What each kind is built from and what appears with it. -/
def registry : Registry Kind where
  providers := {
    entries := [
      (suffixArray, Provider.leaf.yields [inverse]),
      (inverse, Provider.leaf.requires [suffixArray]),
      (phi, Provider.leaf.requires [suffixArray]),
      (plcp, Provider.leaf.requires [phi]),
      (lcp, Provider.leaf.requires [suffixArray, plcp]),
      (bwt, Provider.leaf.requires [suffixArray])]
    keys_nodup := by decide }

end Kind

end TextIndex
