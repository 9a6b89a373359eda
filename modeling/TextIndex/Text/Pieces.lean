/-!
# Texts in pieces

A text is cut at every occurrence of a separator; there is always one piece more than separators,
and pieces may be empty. Putting the separator back between the pieces gives the text again.
-/

set_option autoImplicit false

namespace TextIndex.Text

/-- The pieces of a list between the occurrences of `sep`. -/
def cut (sep : Char) : List Char → List (List Char)
  | [] => [[]]
  | c :: rest =>
    if c = sep then [] :: cut sep rest
    else
      match cut sep rest with
      | [] => [[c]]
      | piece :: pieces => (c :: piece) :: pieces

/-- The pieces of a text between the occurrences of `sep`. -/
def pieces (sep : Char) (s : String) : List String := (cut sep s.toList).map String.ofList

/-- Even an empty text has one part. -/
theorem cut_ne_nil (sep : Char) (cs : List Char) : cut sep cs ≠ [] := by
  cases cs with
  | nil => simp [cut]
  | cons c rest =>
    unfold cut
    split
    · simp
    · split <;> simp

/-- The pieces with the separator between them are the text. -/
theorem intercalate_cut (sep : Char) (cs : List Char) : [sep].intercalate (cut sep cs) = cs := by
  induction cs with
  | nil => rfl
  | cons c rest ih =>
    have hne := cut_ne_nil sep rest
    unfold cut
    split
    · rename_i h
      subst h
      cases hr : cut c rest with
      | nil => exact absurd hr hne
      | cons piece more =>
        rw [hr] at ih
        simp only [List.intercalate, List.intersperse_cons_cons, List.flatten_cons] at ih ⊢
        simp [ih]
    · cases hr : cut sep rest with
      | nil => exact absurd hr hne
      | cons piece more =>
        rw [hr] at ih
        cases more <;> simp_all [List.intercalate]

/-- No piece holds the separator. -/
theorem not_mem_of_mem_cut {sep : Char} {cs piece : List Char} (h : piece ∈ cut sep cs) :
    sep ∉ piece := by
  induction cs generalizing piece with
  | nil => simp [cut] at h; simp [h]
  | cons c rest ih =>
    unfold cut at h
    split at h
    · rcases List.mem_cons.1 h with rfl | h
      · simp
      · exact ih h
    · rename_i hc
      cases hr : cut sep rest with
      | nil => exact absurd hr (cut_ne_nil sep rest)
      | cons first more =>
        rw [hr] at h
        rcases List.mem_cons.1 h with rfl | h
        · have := ih (hr ▸ List.mem_cons_self)
          simp [this, Ne.symm hc]
        · exact ih (hr ▸ List.mem_cons_of_mem _ h)

end TextIndex.Text
