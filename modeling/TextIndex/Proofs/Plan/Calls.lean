import TextIndex.Proofs.Plan.Steps
import TextIndex.Proofs.Plan.Trace

/-!
# Calls of a manager

The state of a manager changes by calls and in no other way. `Manager.after` is the state after one
call, carried out or refused, and what every call keeps is kept by both phases of a run
(`RequestSteps.keeps_of_calls`, `Steps.keeps`).

When the manager is watched, its log grows by these calls. `Stage.Calls` lists the circumstances in
which the evaluation phase makes each of them, so a property of a log with its calls
(`Log.Always`) has to be shown in these circumstances only.
-/

set_option autoImplicit false

namespace TextIndex

variable {K E S : Type}

namespace Manager

/-- The state in which a step ends, with a value or with a failure. -/
def reached {α : Type} : EStateM.Result E S α → S
  | .ok _ s => s
  | .error _ s => s

/-- The state of the manager after a call, carried out or refused. -/
def after (m : Manager K E S) (s : S) : Event K → S
  | .ensure k => reached (m.ensure k s)
  | .construct k compressed => reached (m.construct k compressed s)
  | .discard k intermediate => m.discard k intermediate s
  | .protect k => m.protect k s
  | .unprotect k => m.unprotect k s
  | .compress k => reached (m.compress k s)

/-- The state of the manager after calls in a row. -/
def afterAll (m : Manager K E S) (s : S) (calls : List (Event K)) : S := calls.foldl m.after s

/-- A call that is carried out reaches the state that it leaves. -/
theorem reached_of_ok {α : Type} {x : EStateM.Result E S α} {a : α} {t : S} (h : x = .ok a t) :
    reached x = t := by
  rw [h]
  rfl

/-- So does a call that is refused. -/
theorem reached_of_error {α : Type} {x : EStateM.Result E S α} {e : E} {t : S}
    (h : x = .error e t) : reached x = t := by
  rw [h]
  rfl

/-- What the manager does with a call. -/
def answer (m : Manager K E S) : Event K → EStateM E S Unit
  | .ensure k => m.ensure k
  | .construct k compressed => m.construct k compressed
  | .discard k intermediate => modify (m.discard k intermediate)
  | .protect k => modify (m.protect k)
  | .unprotect k => modify (m.unprotect k)
  | .compress k => m.compress k

/-- The state after a call is the one that its answer reaches. -/
theorem reached_answer (m : Manager K E S) (s : S) (event : Event K) :
    reached (m.answer event s) = m.after s event := by
  cases event <;> rfl

/-- The state after a call that was carried out. -/
theorem after_of_ok {m : Manager K E S} {event : Event K} {s t : S} {u : Unit}
    (h : m.answer event s = .ok u t) : m.after s event = t := by
  rw [← reached_answer, reached_of_ok h]

/-- The state after a call that was refused. -/
theorem after_of_error {m : Manager K E S} {event : Event K} {s t : S} {e : E}
    (h : m.answer event s = .error e t) : m.after s event = t := by
  rw [← reached_answer, reached_of_error h]

/-- What holds at either end of a step holds where it ends. -/
theorem reached_of_ends {α : Type} {P : S → Prop} {x : EStateM E S α} {s : S}
    (h : Ends x s (fun _ t => P t) fun _ t => P t) : P (reached (x s)) := by
  unfold Ends at h
  cases hx : x s with
  | ok a t => rwa [hx] at h
  | error e t => rwa [hx] at h

end Manager

namespace Run

variable [DecidableEq K]

/-- The circumstances in which the evaluation phase makes a call. -/
def Stage.Calls (c : Stage K S) : Event K → Prop
  | .ensure _ | .protect _ => False
  | .construct k compressed => c.tasks = [] ∧ (∃ top, c.session.run.Ready k top) ∧
      compressed = decide (c.session.run.mode = .compressed)
  | .discard k intermediate => ∃ tasks,
      (c.tasks = .byproduct k :: tasks ∧ c.session.run.degrees.degree k = 0 ∧ intermediate = true) ∨
      (c.tasks = .release k :: tasks ∧ c.session.run.degrees.degree k = 1 ∧
        intermediate = decide (k ∉ c.session.run.requestedKinds))
  | .unprotect k => ∃ tasks, c.tasks = .release k :: tasks ∧
      c.session.run.degrees.degree k = 2 ∧ k ∉ c.session.run.requestedKinds
  | .compress k => ∃ tasks, c.tasks = .settle k :: tasks ∧ c.session.run.Alone k

/-- A step of the request phase makes one call, or none. -/
theorem RequestStep.call {m : Manager K E S} {s t : Session K S} (h : RequestStep m s t) :
    t.manager = s.manager ∨ ∃ call, (call.action = .ensure ∨ call.action = .protect) ∧
      t.manager = m.after s.manager call := by
  cases h with
  | @ensured k u hm => exact Or.inr ⟨.ensure k, Or.inl rfl, (Manager.reached_of_ok hm).symm⟩
  | @refused k e u hm => exact Or.inr ⟨.ensure k, Or.inl rfl, (Manager.reached_of_error hm).symm⟩
  | counted k =>
    unfold Run.counted
    split
    · exact Or.inr ⟨.protect k, Or.inr rfl, rfl⟩
    · exact Or.inl rfl

/-- A step of the evaluation phase makes one call, or none. -/
theorem Step.call {m : Manager K E S} {c c' : Stage K S} (h : Step m c c') :
    c'.session.manager = c.session.manager ∨
      ∃ call, c.Calls call ∧ c'.session.manager = m.after c.session.manager call := by
  cases h with
  | @construct s k top t hready hm =>
    exact Or.inr ⟨.construct k (s.run.mode = .compressed), ⟨rfl, ⟨top, hready⟩, rfl⟩,
      (Manager.reached_of_ok hm).symm⟩
  | @dropByproduct s k tasks h =>
    exact Or.inr ⟨.discard k true, ⟨tasks, Or.inl ⟨rfl, h, rfl⟩⟩, rfl⟩
  | @releaseLast s k tasks h =>
    exact Or.inr ⟨.discard k (k ∉ s.run.requestedKinds), ⟨tasks, Or.inr ⟨rfl, h, rfl⟩⟩, rfl⟩
  | @releaseToLast s k tasks h hk => exact Or.inr ⟨.unprotect k, ⟨tasks, rfl, h, hk⟩, rfl⟩
  | @settleDone s k t tasks halone hm =>
    exact Or.inr ⟨.compress k, ⟨tasks, rfl, halone⟩, (Manager.reached_of_ok hm).symm⟩
  | _ => exact Or.inl rfl

/-- The request phase makes a kind ready or protects it, and calls nothing else. -/
theorem RequestSteps.keeps_of_calls {m : Manager K E S} {I : S → Prop}
    (hI : ∀ call s, call.action = .ensure ∨ call.action = .protect → I s → I (m.after s call))
    {s t : Session K S} (h : RequestSteps m s t) (hs : I s.manager) : I t.manager := by
  induction h with
  | refl => exact hs
  | tail _ hstep ih =>
    rcases hstep.call with heq | ⟨call, haction, heq⟩
    · rw [heq]
      exact ih
    · rw [heq]
      exact hI call _ haction ih

/-- What every call keeps, the evaluation phase keeps. -/
theorem Steps.keeps {m : Manager K E S} {I : S → Prop} (hI : ∀ call s, I s → I (m.after s call))
    {c c' : Stage K S} (h : Steps m c c') (hc : I c.session.manager) : I c'.session.manager := by
  induction h with
  | refl => exact hc
  | tail _ hstep ih =>
    rcases hstep.call with heq | ⟨call, -, heq⟩
    · rw [heq]
      exact ih
    · rw [heq]
      exact hI call _ ih

/-! ## The log of a watched manager -/

/-- A step of the evaluation phase adds one call to the log, which was carried out, or none. -/
theorem Step.log {m : Manager K E S} {c c' : Stage K (Traced K S)} (h : Step m.traced c c') :
    c'.session.manager.log = c.session.manager.log ∨
      ∃ event, c.Calls event ∧ c'.session.manager.log = c.session.manager.log ++ [⟨event, true⟩] := by
  cases h with
  | @construct s k top t hready hm =>
    exact Or.inr ⟨.construct k (s.run.mode = .compressed), ⟨rfl, ⟨top, hready⟩, rfl⟩,
      Traced.log_of_ask_ok hm⟩
  | @dropByproduct s k tasks h =>
    exact Or.inr ⟨.discard k true, ⟨tasks, Or.inl ⟨rfl, h, rfl⟩⟩, Traced.log_tell ..⟩
  | @releaseLast s k tasks h =>
    exact Or.inr ⟨.discard k (k ∉ s.run.requestedKinds), ⟨tasks, Or.inr ⟨rfl, h, rfl⟩⟩,
      Traced.log_tell ..⟩
  | @releaseToLast s k tasks h hk =>
    exact Or.inr ⟨.unprotect k, ⟨tasks, rfl, h, hk⟩, Traced.log_tell ..⟩
  | @settleDone s k t tasks halone hm =>
    exact Or.inr ⟨.compress k, ⟨tasks, rfl, halone⟩, Traced.log_of_ask_ok hm⟩
  | _ => exact Or.inl rfl

/-- A step that fails adds the call that was refused. -/
theorem Stop.log {m : Manager K E S} {c : Stage K (Traced K S)} {e : ScheduleError K E}
    {t : Session K (Traced K S)} (h : Stop m.traced c e t) :
    t.manager.log = c.session.manager.log ∨
      ∃ event, c.Calls event ∧ t.manager.log = c.session.manager.log ++ [⟨event, false⟩] := by
  cases h with
  | @construct s k top e t hready hm =>
    exact Or.inr ⟨.construct k (s.run.mode = .compressed), ⟨rfl, ⟨top, hready⟩, rfl⟩,
      Traced.log_of_ask_error hm⟩
  | @settle s k e t tasks halone hm =>
    exact Or.inr ⟨.compress k, ⟨tasks, rfl, halone⟩, Traced.log_of_ask_error hm⟩
  | release h => exact Or.inl rfl

/-- A log only grows. -/
theorem Steps.log_prefix {m : Manager K E S} {c c' : Stage K (Traced K S)}
    (h : Steps m.traced c c') : c.session.manager.log <+: c'.session.manager.log := by
  induction h with
  | refl => exact List.prefix_rfl
  | tail _ hstep ih =>
    rcases hstep.log with heq | ⟨event, -, heq⟩
    · rw [heq]
      exact ih
    · rw [heq]
      exact ih.trans (List.prefix_append ..)

/-- A step that fails takes nothing back that was written down. -/
theorem Stop.log_prefix {m : Manager K E S} {c : Stage K (Traced K S)} {e : ScheduleError K E}
    {t : Session K (Traced K S)} (h : Stop m.traced c e t) :
    c.session.manager.log <+: t.manager.log := by
  rcases h.log with heq | ⟨event, -, heq⟩
  · exact heq.symm ▸ List.prefix_rfl
  · rw [heq]
    exact List.prefix_append ..

/-- What every call satisfies in its circumstances holds of the log after a step. -/
theorem Step.always {m : Manager K E S} {c c' : Stage K (Traced K S)} (h : Step m.traced c c')
    {P : Log K → Entry K → Prop} (halways : Log.Always P c.session.manager.log)
    (hP : ∀ event, c.Calls event → P c.session.manager.log ⟨event, true⟩) :
    Log.Always P c'.session.manager.log := by
  rcases h.log with heq | ⟨event, hcalls, heq⟩
  · rw [heq]
    exact halways
  · rw [heq]
    exact halways.snoc (hP event hcalls)

/-- What is true of every call, and of the refused one, is true of all calls up to the failure. -/
theorem Stop.always {m : Manager K E S} {c : Stage K (Traced K S)} {e : ScheduleError K E}
    {t : Session K (Traced K S)} (h : Stop m.traced c e t) {P : Log K → Entry K → Prop}
    (halways : Log.Always P c.session.manager.log)
    (hP : ∀ event, c.Calls event → P c.session.manager.log ⟨event, false⟩) :
    Log.Always P t.manager.log := by
  rcases h.log with heq | ⟨event, hcalls, heq⟩
  · rw [heq]
    exact halways
  · rw [heq]
    exact halways.snoc (hP event hcalls)

/-- A step of the request phase makes a kind ready, or protects one, or calls nothing. -/
theorem RequestStep.log {m : Manager K E S} {s t : Session K (Traced K S)}
    (h : RequestStep m.traced s t) :
    t.manager.log = s.manager.log ∨ ∃ e : Entry K,
      (e.event.action = .ensure ∨ e.event.action = .protect) ∧
        t.manager.log = s.manager.log ++ [e] := by
  cases h with
  | @ensured k u hm => exact Or.inr ⟨⟨.ensure k, true⟩, Or.inl rfl, Traced.log_of_ask_ok hm⟩
  | @refused k e u hm => exact Or.inr ⟨⟨.ensure k, false⟩, Or.inl rfl, Traced.log_of_ask_error hm⟩
  | counted k =>
    unfold Run.counted
    split
    · exact Or.inr ⟨⟨.protect k, true⟩, Or.inr rfl, rfl⟩
    · exact Or.inl rfl

/-- While kinds are counted nothing else is called. -/
theorem RequestSteps.log_mem {m : Manager K E S} {s t : Session K (Traced K S)}
    (h : RequestSteps m.traced s t) {e : Entry K} (he : e ∈ t.manager.log) :
    e ∈ s.manager.log ∨ e.event.action = .ensure ∨ e.event.action = .protect := by
  induction h with
  | refl => exact Or.inl he
  | tail _ hstep ih =>
    rcases hstep.log with heq | ⟨x, hx, heq⟩
    · rw [heq] at he
      exact ih he
    · rw [heq, List.mem_append, List.mem_singleton] at he
      rcases he with he | rfl
      · exact ih he
      · exact Or.inr hx

/-- Before the evaluation a manager is asked for nothing else. -/
theorem RequestSteps.event_ne {m : Manager K E S} {run : Run K} {s₀ : S}
    {t : Session K (Traced K S)} (h : RequestSteps m.traced ⟨run, Traced.start s₀⟩ t)
    {event : Event K} (hensure : event.action ≠ .ensure) (hprotect : event.action ≠ .protect) :
    ∀ e ∈ t.manager.log, e.event ≠ event := by
  rintro e he rfl
  rcases h.log_mem he with hstart | haction | haction
  · exact absurd hstart List.not_mem_nil
  · exact hensure haction
  · exact hprotect haction

end Run

end TextIndex
