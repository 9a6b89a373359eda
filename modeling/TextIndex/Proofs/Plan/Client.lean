import TextIndex.Plan.Run
import TextIndex.Proofs.Ends

/-!
# Calls of a client

A client holds one run and one manager and calls the two phases in any order and as often as it
likes. Every call has an outcome, and the session goes on from whatever state a call leaves, also
one that failed.
-/

set_option autoImplicit false

namespace TextIndex

variable {K E S : Type} [DecidableEq K]

/-- A call of one of the two phases. -/
inductive PhaseCall where
  | request
  | evaluate
deriving DecidableEq

/-- What a call returned: nothing or a schedule, or why it stopped. -/
abbrev Outcome (K E : Type) := Except (ScheduleError K E) (Option (Schedule K))

namespace Run

/-- Carries out one call. -/
def serve (m : Manager K E S) : PhaseCall → SessionM K E S (Option (Schedule K))
  | .request => do
    request m
    return none
  | .evaluate => do
    let schedule ← evaluate m
    return some schedule

/-- Carries out calls one after the other; returns their outcomes and the session after them. -/
def serveAll (m : Manager K E S) : List PhaseCall → Session K S → List (Outcome K E) × Session K S
  | [], s => ([], s)
  | call :: calls, s =>
    match serve m call s with
    | .ok answer t => (.ok answer :: (serveAll m calls t).1, (serveAll m calls t).2)
    | .error e t => (.error e :: (serveAll m calls t).1, (serveAll m calls t).2)

/-- After a call that succeeds the next ones go on from where it ended. -/
theorem serveAll_cons_of_ok {m : Manager K E S} {call : PhaseCall} {s t : Session K S}
    {answer : Option (Schedule K)} (h : serve m call s = .ok answer t) (calls : List PhaseCall) :
    serveAll m (call :: calls) s =
      (.ok answer :: (serveAll m calls t).1, (serveAll m calls t).2) := by
  simp only [serveAll, h]

/-- After a call that fails the next ones go on from where it stopped. -/
theorem serveAll_cons_of_error {m : Manager K E S} {call : PhaseCall} {s t : Session K S}
    {e : ScheduleError K E} (h : serve m call s = .error e t) (calls : List PhaseCall) :
    serveAll m (call :: calls) s =
      (.error e :: (serveAll m calls t).1, (serveAll m calls t).2) := by
  simp only [serveAll, h]

/-- Calls in a row are continued from where the first of them lead. -/
theorem serveAll_append (m : Manager K E S) (calls later : List PhaseCall) (s : Session K S) :
    (serveAll m (calls ++ later) s).2 = (serveAll m later (serveAll m calls s).2).2 := by
  induction calls generalizing s with
  | nil => rfl
  | cons call calls ih =>
    cases hserve : serve m call s with
    | ok answer t =>
      simp only [List.cons_append, serveAll, hserve]
      exact ih t
    | error e t =>
      simp only [List.cons_append, serveAll, hserve]
      exact ih t

/-- What every call keeps holds after any number of them, and what every call returns holds of all
outcomes. -/
theorem serveAll_keeps {m : Manager K E S} (I : Session K S → Prop) (G : Outcome K E → Prop)
    (hcall : ∀ (call : PhaseCall) (s : Session K S), I s →
      Ends (serve m call) s (fun answer t => I t ∧ G (.ok answer)) fun e t => I t ∧ G (.error e))
    (calls : List PhaseCall) {s : Session K S} (hs : I s) :
    I (serveAll m calls s).2 ∧ ∀ o ∈ (serveAll m calls s).1, G o := by
  induction calls generalizing s with
  | nil => exact ⟨hs, by simp [serveAll]⟩
  | cons call calls ih =>
    have hend := hcall call s hs
    unfold serveAll
    cases hserve : serve m call s with
    | ok answer t =>
      obtain ⟨ht, hG⟩ := hend.of_ok hserve
      exact ⟨(ih ht).1, by simpa [hG] using (ih ht).2⟩
    | error e t =>
      obtain ⟨ht, hG⟩ := hend.of_error hserve
      exact ⟨(ih ht).1, by simpa [hG] using (ih ht).2⟩

/-! ## The same call again and again -/

/-- The session after `n` calls of the same phase, whatever they returned. -/
def afterCalls (m : Manager K E S) (call : PhaseCall) (n : Nat) (s : Session K S) : Session K S :=
  (serveAll m (List.replicate n call) s).2

section

variable {m : Manager K E S} {call : PhaseCall} {s t : Session K S} {e : ScheduleError K E}

/-- A call that fails is one of those that are made in a row. -/
theorem afterCalls_succ (h : serve m call s = .error e t) (n : Nat) :
    afterCalls m call (n + 1) s = afterCalls m call n t := by
  unfold afterCalls
  rw [List.replicate_succ, serveAll_cons_of_error h]

/-- Calls in a row can be made in two stretches. -/
theorem afterCalls_add (m : Manager K E S) (call : PhaseCall) (i j : Nat) (s : Session K S) :
    afterCalls m call (i + j) s = afterCalls m call j (afterCalls m call i s) := by
  unfold afterCalls
  rw [List.replicate_add, serveAll_append]

/-- A call that is rejected and leaves the session alone is rejected ever after. -/
theorem afterCalls_of_rejected (h : serve m call s = .error e s) (n : Nat) :
    afterCalls m call n s = s := by
  induction n with
  | zero => rfl
  | succ n ih => rw [afterCalls_succ h, ih]

/-- What holds after each call up to one that is rejected holds after any number of them. -/
theorem afterCalls_always {P : Session K S → Prop} (last : Nat)
    (hend : serve m call (afterCalls m call last s) = .error e (afterCalls m call last s))
    (hP : ∀ n ≤ last, P (afterCalls m call n s)) (n : Nat) : P (afterCalls m call n s) := by
  rcases Nat.le_total n last with hle | hle
  · exact hP n hle
  · obtain ⟨rest, rfl⟩ := Nat.exists_eq_add_of_le hle
    rw [afterCalls_add, afterCalls_of_rejected hend]
    exact hP last (Nat.le_refl _)

end

end Run

end TextIndex
