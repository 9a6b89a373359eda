import Mathlib.Data.List.Basic

/-!
# Where a stateful step ends

A step that changes a state and may fail ends in one of two ways: with a value, or with a failure; in
both cases it leaves a state. `Ends` says what holds in each case. Its rules follow the way in which
steps are put together, so that a program is read from the front to the back.
-/

set_option autoImplicit false

namespace TextIndex

variable {ε σ α β : Type}

/-- Started in `s`, the step ends with a value and a state that satisfy `Q`, or with a failure and a
state that satisfy `F`. -/
def Ends (x : EStateM ε σ α) (s : σ) (Q : α → σ → Prop) (F : ε → σ → Prop) : Prop :=
  match x s with
  | .ok a t => Q a t
  | .error e t => F e t

/-- How a step ends can be seen by running it. -/
instance decidableEnds (x : EStateM ε σ α) (s : σ) (Q : α → σ → Prop) (F : ε → σ → Prop)
    [∀ a t, Decidable (Q a t)] [∀ e t, Decidable (F e t)] : Decidable (Ends x s Q F) :=
  show Decidable (match x s with
    | .ok a t => Q a t
    | .error e t => F e t) from
  match x s with
  | .ok a t => inferInstanceAs (Decidable (Q a t))
  | .error e t => inferInstanceAs (Decidable (F e t))

/-- A step whose value is known ends with that value. -/
theorem ends_of_ok {x : EStateM ε σ α} {s t : σ} {a : α} {Q : α → σ → Prop} {F : ε → σ → Prop}
    (h : x s = .ok a t) (hQ : Q a t) : Ends x s Q F := by
  unfold Ends
  rw [h]
  exact hQ

/-- A step whose failure is known ends with that failure. -/
theorem ends_of_error {x : EStateM ε σ α} {s t : σ} {e : ε} {Q : α → σ → Prop} {F : ε → σ → Prop}
    (h : x s = .error e t) (hF : F e t) : Ends x s Q F := by
  unfold Ends
  rw [h]
  exact hF

/-- What holds where a step ends holds of its value. -/
theorem Ends.of_ok {x : EStateM ε σ α} {s t : σ} {a : α} {Q : α → σ → Prop} {F : ε → σ → Prop}
    (h : Ends x s Q F) (hx : x s = .ok a t) : Q a t := by
  unfold Ends at h
  rwa [hx] at h

/-- What holds where a step ends holds of its failure. -/
theorem Ends.of_error {x : EStateM ε σ α} {s t : σ} {e : ε} {Q : α → σ → Prop} {F : ε → σ → Prop}
    (h : Ends x s Q F) (hx : x s = .error e t) : F e t := by
  unfold Ends at h
  rwa [hx] at h

/-- A step that cannot fail ends with a value. -/
theorem Ends.exists_ok {x : EStateM ε σ α} {s : σ} {Q : α → σ → Prop}
    (h : Ends x s Q fun _ _ => False) : ∃ a t, x s = .ok a t ∧ Q a t := by
  unfold Ends at h
  cases hx : x s with
  | ok a t => rw [hx] at h; exact ⟨a, t, rfl, h⟩
  | error e t => rw [hx] at h; exact h.elim

/-- A result that is not a failure is a value. -/
theorem exists_of_isOk {x : EStateM.Result ε σ α}
    (h : (match x with
      | .ok _ _ => true
      | .error _ _ => false) = true) : ∃ a t, x = .ok a t := by
  cases x with
  | ok a t => exact ⟨a, t, rfl⟩
  | error e t => cases h

/-- A result that is not a value is a failure. -/
theorem exists_of_isError {x : EStateM.Result ε σ α}
    (h : (match x with
      | .ok _ _ => false
      | .error _ _ => true) = true) : ∃ e t, x = .error e t := by
  cases x with
  | ok a t => cases h
  | error e t => exact ⟨e, t, rfl⟩

/-- Weaker claims about both ends follow from stronger ones. -/
theorem Ends.mono {x : EStateM ε σ α} {s : σ} {Q Q' : α → σ → Prop} {F F' : ε → σ → Prop}
    (h : Ends x s Q F) (hQ : ∀ a t, Q a t → Q' a t) (hF : ∀ e t, F e t → F' e t) :
    Ends x s Q' F' := by
  unfold Ends at h ⊢
  split at h
  · exact hQ _ _ h
  · exact hF _ _ h

/-- Two claims about the same step. -/
theorem Ends.and {x : EStateM ε σ α} {s : σ} {Q Q' : α → σ → Prop} {F F' : ε → σ → Prop}
    (h : Ends x s Q F) (h' : Ends x s Q' F') :
    Ends x s (fun a t => Q a t ∧ Q' a t) fun e t => F e t ∧ F' e t := by
  unfold Ends at h h' ⊢
  cases hx : x s with
  | ok a t =>
    rw [hx] at h h'
    exact ⟨h, h'⟩
  | error e t =>
    rw [hx] at h h'
    exact ⟨h, h'⟩

/-- Two steps in a row are the second one, from where the first ends with a value. -/
theorem bind_apply_of_ok {x : EStateM ε σ α} {f : α → EStateM ε σ β} {s t : σ} {a : α}
    (h : x s = .ok a t) : (x >>= f) s = f a t := by
  show EStateM.bind x f s = _
  unfold EStateM.bind
  rw [h]

/-- Nothing follows a step that fails. -/
theorem bind_apply_of_error {x : EStateM ε σ α} {f : α → EStateM ε σ β} {s t : σ} {e : ε}
    (h : x s = .error e t) : (x >>= f) s = .error e t := by
  show EStateM.bind x f s = _
  unfold EStateM.bind
  rw [h]

/-- Two steps in a row: where the first ends with a value, the second goes on from there. -/
@[simp] theorem ends_bind {x : EStateM ε σ α} {f : α → EStateM ε σ β} {s : σ} {Q : β → σ → Prop}
    {F : ε → σ → Prop} :
    Ends (x >>= f) s Q F ↔ Ends x s (fun a t => Ends (f a) t Q F) F := by
  unfold Ends
  cases hx : x s with
  | ok a t => rw [bind_apply_of_ok hx]
  | error e t => rw [bind_apply_of_error hx]

/-- Two steps in a row succeed when the first does, and the second from where the first ends. -/
theorem bind_apply_eq_ok {x : EStateM ε σ α} {f : α → EStateM ε σ β} {s u : σ} {b : β} :
    (x >>= f) s = .ok b u ↔ ∃ a t, x s = .ok a t ∧ f a t = .ok b u := by
  cases hx : x s with
  | ok a t => simp [bind_apply_of_ok hx]
  | error e t => simp [bind_apply_of_error hx]

/-- Returning a value leaves the state alone. -/
@[simp] theorem ends_pure {a : α} {s : σ} {Q : α → σ → Prop} {F : ε → σ → Prop} :
    Ends (pure a : EStateM ε σ α) s Q F ↔ Q a s := Iff.rfl

/-- Looking at the state returns it and leaves it alone. -/
@[simp] theorem ends_get {s : σ} {Q : σ → σ → Prop} {F : ε → σ → Prop} :
    Ends (get : EStateM ε σ σ) s Q F ↔ Q s s := Iff.rfl

/-- Looking at the state hands it to what follows. -/
theorem get_bind_apply {f : σ → EStateM ε σ α} {s : σ} :
    (get >>= f : EStateM ε σ α) s = f s s := rfl

/-- Setting the state forgets the old one. -/
@[simp] theorem ends_set {s t : σ} {Q : PUnit → σ → Prop} {F : ε → σ → Prop} :
    Ends (set t : EStateM ε σ PUnit) s Q F ↔ Q ⟨⟩ t := Iff.rfl

/-- Changing the state cannot fail. -/
@[simp] theorem ends_modify {f : σ → σ} {s : σ} {Q : PUnit → σ → Prop} {F : ε → σ → Prop} :
    Ends (modify f : EStateM ε σ PUnit) s Q F ↔ Q ⟨⟩ (f s) := Iff.rfl

/-- Failing leaves the state alone. -/
@[simp] theorem ends_throw {e : ε} {s : σ} {Q : α → σ → Prop} {F : ε → σ → Prop} :
    Ends (throw e : EStateM ε σ α) s Q F ↔ F e s := Iff.rfl

/-- Forgetting the value of a step changes nothing else in how it ends. -/
@[simp] theorem ends_discard {x : EStateM ε σ α} {s : σ} {Q : PUnit → σ → Prop} {F : ε → σ → Prop} :
    Ends (discard x) s Q F ↔ Ends x s (fun _ t => Q ⟨⟩ t) F := by
  have hdiscard : discard x = x >>= fun _ => pure ⟨⟩ := rfl
  rw [hdiscard, ends_bind]
  exact Iff.rfl

/-- A choice ends as the branch that is taken. -/
theorem ends_ite {p : Prop} [Decidable p] {x y : EStateM ε σ α} {s : σ} {Q : α → σ → Prop}
    {F : ε → σ → Prop} :
    Ends (if p then x else y) s Q F ↔ (p → Ends x s Q F) ∧ (¬ p → Ends y s Q F) := by
  by_cases hp : p <;> simp [hp]

/-- A loop: the invariant speaks about the part of the list that has been worked off. -/
theorem ends_forM {f : α → EStateM ε σ PUnit} {l : List α} {s : σ} {F : ε → σ → Prop}
    (M : List α → σ → Prop) (hstart : M [] s)
    (hround : ∀ before x after t, l = before ++ x :: after → M before t →
      Ends (f x) t (fun _ u => M (before ++ [x]) u) F) :
    Ends (l.forM f) s (fun _ t => M l t) F := by
  suffices hrest : ∀ (after before : List α) (t : σ), l = before ++ after → M before t →
      Ends (after.forM f) t (fun _ u => M l u) F from hrest l [] s rfl hstart
  intro after
  induction after with
  | nil =>
    intro before t hl hM
    rw [hl, List.append_nil]
    exact hM
  | cons x after ih =>
    intro before t hl hM
    show Ends (f x >>= fun _ => after.forM f) t (fun _ u => M l u) F
    rw [ends_bind]
    exact (hround _ _ _ _ hl hM).mono
      (fun _ u hu => ih (before ++ [x]) u (by simpa using hl) hu) (fun _ _ hF => hF)

/-- In a loop that succeeds, every round does. -/
theorem forM_append_cons_eq_ok {f : α → EStateM ε σ PUnit} {front back : List α} {x : α} {s u : σ}
    (h : (front ++ x :: back).forM f s = .ok ⟨⟩ u) :
    ∃ t t', front.forM f s = .ok ⟨⟩ t ∧ f x t = .ok ⟨⟩ t' := by
  induction front generalizing s with
  | nil =>
    obtain ⟨_, t', hx, -⟩ := bind_apply_eq_ok.1 h
    exact ⟨s, t', rfl, hx⟩
  | cons y front ih =>
    obtain ⟨_, s', hy, hrest⟩ := bind_apply_eq_ok.1 h
    obtain ⟨t, t', hfront, hx⟩ := ih hrest
    exact ⟨t, t', bind_apply_eq_ok.2 ⟨_, _, hy, hfront⟩, hx⟩

end TextIndex
