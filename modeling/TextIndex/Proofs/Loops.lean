import Mathlib.Data.List.Basic

/-!
# Loops over lists

An invariant of a loop speaks about the part of the list that has been worked off and about the
accumulator. It holds at the end if it holds at the start and every round keeps it (`foldlM_ok`), and
the loop succeeds if it allows every round to (`exists_foldlM`). The loop that puts values at given
positions is worked out in full (`putAll`).
-/

set_option autoImplicit false

namespace TextIndex

variable {ε σ α β : Type}

/-- A cut of a list with a last element lies before that element, or cuts it off. -/
theorem snoc_eq_append_cons {l before after : List α} {x y : α} (h : l ++ [y] = before ++ x :: after) :
    (l = before ∧ y = x ∧ after = []) ∨ ∃ rest, after = rest ++ [y] ∧ l = before ++ x :: rest := by
  rcases List.eq_nil_or_concat after with rfl | ⟨rest, last, rfl⟩
  · obtain ⟨hl, hy⟩ := List.append_inj' h rfl
    exact Or.inl ⟨hl, by simpa using hy, rfl⟩
  · have h' : l ++ [y] = (before ++ x :: rest) ++ [last] := by simpa using h
    obtain ⟨hl, hy⟩ := List.append_inj' h' rfl
    obtain rfl : y = last := by simpa using hy
    exact Or.inr ⟨rest, by simp, hl⟩

/-- In an initial segment of the numbers a member is the number of those before it. -/
theorem length_eq_of_range_eq {n i : Nat} {before after : List Nat}
    (h : List.range n = before ++ i :: after) : before.length = i ∧ i < n := by
  have hget : (List.range n)[before.length]? = some i := by rw [h]; simp
  obtain ⟨hlt, heq⟩ := List.getElem?_eq_some_iff.1 hget
  rw [List.getElem_range] at heq
  rw [List.length_range] at hlt
  omega

/-- Two steps in a row succeed when the first does, and the second on what the first returned. -/
theorem bind_eq_ok {x : Except ε α} {f : α → Except ε β} {b : β} :
    x >>= f = .ok b ↔ ∃ a, x = .ok a ∧ f a = .ok b := by
  cases x with
  | error e => simp [bind, Except.bind]
  | ok a => simp [bind, Except.bind]

/-- Two steps in a row fail when the first does, or the second on what the first returned. -/
theorem bind_eq_error {x : Except ε α} {f : α → Except ε β} {e : ε} :
    x >>= f = .error e ↔ x = .error e ∨ ∃ a, x = .ok a ∧ f a = .error e := by
  cases x with
  | error e => simp [bind, Except.bind]
  | ok a => simp [bind, Except.bind]

/-- An invariant that every round of a successful loop keeps holds at its end. -/
theorem foldlM_ok {f : σ → α → Except ε σ} {l : List α} {init last : σ}
    (M : List α → σ → Prop) (hinit : M [] init)
    (hround : ∀ before x after acc acc', l = before ++ x :: after → M before acc →
      f acc x = .ok acc' → M (before ++ [x]) acc')
    (h : l.foldlM f init = .ok last) : M l last := by
  suffices hrest : ∀ (after before : List α) (acc : σ), l = before ++ after → M before acc →
      after.foldlM f acc = .ok last → M l last from hrest l [] init rfl hinit h
  intro after
  induction after with
  | nil =>
    intro before acc hl hM h
    cases h
    rw [hl, List.append_nil]
    exact hM
  | cons x after ih =>
    intro before acc hl hM h
    rw [List.foldlM_cons] at h
    cases hx : f acc x with
    | error e => rw [hx] at h; cases h
    | ok acc' =>
      rw [hx] at h
      exact ih (before ++ [x]) acc' (by simpa using hl) (hround _ _ _ _ _ hl hM hx) h

/-- A loop succeeds if every round does, from where the rounds before it have led. -/
theorem exists_foldlM {f : σ → α → Except ε σ} {l : List α} {init : σ} (M : List α → σ → Prop)
    (hinit : M [] init)
    (hround : ∀ before x after acc, l = before ++ x :: after → M before acc →
      ∃ acc', f acc x = .ok acc' ∧ M (before ++ [x]) acc') :
    ∃ last, l.foldlM f init = .ok last ∧ M l last := by
  suffices hrest : ∀ (after before : List α) (acc : σ), l = before ++ after → M before acc →
      ∃ last, after.foldlM f acc = .ok last ∧ M l last from hrest l [] init rfl hinit
  intro after
  induction after with
  | nil =>
    intro before acc hl hM
    rw [List.append_nil] at hl
    exact ⟨acc, rfl, hl ▸ hM⟩
  | cons x after ih =>
    intro before acc hl hM
    obtain ⟨acc', hx, hM'⟩ := hround _ _ _ _ hl hM
    obtain ⟨last, hlast, hend⟩ := ih (before ++ [x]) acc' (by simpa using hl) hM'
    exact ⟨last, by rw [List.foldlM_cons, hx]; exact hlast, hend⟩

/-- A loop fails in one of its rounds. -/
theorem foldlM_error {f : σ → α → Except ε σ} {l : List α} {init : σ} {e : ε}
    (h : l.foldlM f init = .error e) : ∃ x ∈ l, ∃ acc, f acc x = .error e := by
  induction l generalizing init with
  | nil => cases h
  | cons x l ih =>
    rw [List.foldlM_cons] at h
    rcases bind_eq_error.1 h with hx | ⟨acc, -, hrest⟩
    · exact ⟨x, List.mem_cons_self, init, hx⟩
    · obtain ⟨y, hy, hround⟩ := ih hrest
      exact ⟨y, List.mem_cons_of_mem x hy, hround⟩

/-- A loop without an accumulator goes through if every round does. -/
theorem forM_eq_ok {f : α → Except ε Unit} {l : List α} (h : ∀ x ∈ l, f x = .ok ()) :
    l.forM f = .ok () := by
  induction l with
  | nil => rfl
  | cons x l ih =>
    show (f x >>= fun _ => l.forM f) = .ok ()
    rw [h x List.mem_cons_self]
    exact ih fun y hy => h y (List.mem_cons_of_mem x hy)

/-! ## The largest of a list -/

section Largest

variable [LE α] [DecidableLE α]

/-- A loop that keeps the larger of two values ends with one of those it has seen. -/
theorem foldl_max_eq_or_mem (l : List α) (a : α) :
    l.foldl maxOfLe.max a = a ∨ l.foldl maxOfLe.max a ∈ l := by
  have heither : ∀ a b : α, maxOfLe.max a b = a ∨ maxOfLe.max a b = b := by
    intro a b
    show (if a ≤ b then b else a) = a ∨ (if a ≤ b then b else a) = b
    split
    · exact Or.inr rfl
    · exact Or.inl rfl
  induction l generalizing a with
  | nil => exact Or.inl rfl
  | cons b l ih =>
    rw [List.foldl_cons, List.mem_cons]
    rcases ih (maxOfLe.max a b) with hstart | hmem
    · rw [hstart]
      exact (heither a b).imp_right Or.inl
    · exact Or.inr (Or.inr hmem)

/-- None of those it has seen is larger. -/
theorem le_foldl_max {size : α → Nat} (hsize : ∀ a b : α, a ≤ b ↔ size a ≤ size b) (l : List α)
    (a : α) : size a ≤ size (l.foldl maxOfLe.max a) ∧ ∀ x ∈ l, size x ≤ size (l.foldl maxOfLe.max a) := by
  have hboth : ∀ a b : α, size a ≤ size (maxOfLe.max a b) ∧ size b ≤ size (maxOfLe.max a b) := by
    intro a b
    show size a ≤ size (if a ≤ b then b else a) ∧ size b ≤ size (if a ≤ b then b else a)
    split
    · next h => exact ⟨(hsize a b).1 h, Nat.le_refl _⟩
    · next h => exact ⟨Nat.le_refl _, Nat.le_of_not_le (mt (hsize a b).2 h)⟩
  induction l generalizing a with
  | nil => exact ⟨Nat.le_refl _, fun x hx => absurd hx List.not_mem_nil⟩
  | cons b l ih =>
    obtain ⟨hstart, hall⟩ := ih (maxOfLe.max a b)
    refine ⟨Nat.le_trans (hboth a b).1 hstart, ?_⟩
    intro x hx
    rcases List.mem_cons.1 hx with rfl | hx
    · exact Nat.le_trans (hboth a x).2 hstart
    · exact hall x hx

end Largest

/-! ## Putting values at positions -/

/-- The list with each value at its position. -/
def putAll (l : List α) (pairs : List (Nat × α)) : List α :=
  pairs.foldl (fun l p => l.set p.1 p.2) l

/-- Putting elements into a list keeps its length. -/
@[simp] theorem length_putAll (l : List α) (pairs : List (Nat × α)) :
    (putAll l pairs).length = l.length := by
  unfold putAll
  induction pairs generalizing l with
  | nil => rfl
  | cons p pairs ih => rw [List.foldl_cons, ih, List.length_set]

/-- A position that is not given keeps its value. -/
theorem getElem?_putAll_of_not_mem {pairs : List (Nat × α)} {i : Nat}
    (h : i ∉ pairs.map Prod.fst) (l : List α) : (putAll l pairs)[i]? = l[i]? := by
  unfold putAll
  induction pairs generalizing l with
  | nil => rfl
  | cons p pairs ih =>
    rw [List.map_cons, List.mem_cons, not_or] at h
    rw [List.foldl_cons, ih h.2, List.getElem?_set_ne (Ne.symm h.1)]

/-- A position that is given once has its value. -/
theorem getElem?_putAll {pairs : List (Nat × α)} (hnodup : (pairs.map Prod.fst).Nodup) {i : Nat}
    {x : α} (h : (i, x) ∈ pairs) {l : List α} (hi : i < l.length) :
    (putAll l pairs)[i]? = some x := by
  induction pairs generalizing l with
  | nil => cases h
  | cons p pairs ih =>
    rw [List.map_cons, List.nodup_cons] at hnodup
    show (putAll (l.set p.1 p.2) pairs)[i]? = some x
    rcases List.mem_cons.1 h with rfl | h
    · rw [getElem?_putAll_of_not_mem hnodup.1, List.getElem?_set_self hi]
    · exact ih hnodup.2 h (by rwa [List.length_set])

end TextIndex
