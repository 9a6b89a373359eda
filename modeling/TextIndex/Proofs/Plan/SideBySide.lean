import TextIndex.Proofs.Ends
import TextIndex.Proofs.Plan.Protection

/-!
# Two managers side by side

A run learns nothing from its manager but whether a call was carried out. So two runs of the same request
go the same way as long as their managers give the same answers, whatever the managers are and whether
or not the registry is consistent.

`Beside` relates two managers: their states stay `together` while the answers are the same, and where
one refuses what the other does not, that one falls behind for good. `SideBySide` says of two programs
that they go the same way until then. It has one rule for each way of putting programs together, so that
the proofs follow the text of the programs, and the walks are compared by induction on their depth.
-/

set_option autoImplicit false

namespace TextIndex

variable {K E S E' S' : Type}

/-- The failure, without the cause that the manager gave. -/
def ScheduleError.sort : ScheduleError K E → ScheduleError K Unit
  | .config cause => .config cause
  | .invariant cause => .invariant cause
  | .phase cause => .phase cause
  | .manager k _ => .manager k ()

/-- What a run returns: a value, or the sort of its failure. -/
def outcome {σ α : Type} : EStateM.Result (ScheduleError K E) σ α → Except (ScheduleError K Unit) α
  | .ok a _ => .ok a
  | .error e _ => .error e.sort

/-- Two managers, of which one may fall behind the other by a refusal. -/
structure Beside (m : Manager K E S) (m' : Manager K E' S') where
  together : S → S' → Prop
  /-- The first manager refused a call which the second carried out. -/
  firstBehind : S → S' → Prop
  /-- The second manager refused a call which the first carried out. -/
  secondBehind : S → S' → Prop
  answer : ∀ event {s s'}, together s s' →
    match m.answer event s, m'.answer event s' with
    | .ok _ t, .ok _ t' => together t t'
    | .error _ t, .error _ t' => together t t'
    | .error _ t, .ok _ t' => firstBehind t t'
    | .ok _ t, .error _ t' => secondBehind t t'
  /-- The other one goes on, and the one behind stays behind. -/
  firstBehind_after : ∀ event {s s'}, firstBehind s s' → firstBehind s (m'.after s' event)
  secondBehind_after : ∀ event {s s'}, secondBehind s s' → secondBehind (m.after s event) s'

namespace Run

variable {α β : Type} {m : Manager K E S} {m' : Manager K E' S'}

/-- The programs have gone the same way, or one has stopped at a refusal and is behind. -/
def Compares (b : Beside m m') (x : EStateM.Result (ScheduleError K E) (Session K S) α)
    (y : EStateM.Result (ScheduleError K E') (Session K S') α) : Prop :=
  match x, y with
  | .ok a t, .ok a' t' => a = a' ∧ t.run = t'.run ∧ b.together t.manager t'.manager
  | .error e t, .error e' t' =>
    (e.sort = e'.sort ∧ b.together t.manager t'.manager) ∨
      b.firstBehind t.manager t'.manager ∨ b.secondBehind t.manager t'.manager
  | .error _ t, .ok _ t' => b.firstBehind t.manager t'.manager
  | .ok _ t, .error _ t' => b.secondBehind t.manager t'.manager

/-- The programs go the same way from sessions with the same run, and what one manager is behind the
other program keeps. -/
structure SideBySide (b : Beside m m') (x : SessionM K E S α) (y : SessionM K E' S' α) : Prop where
  compares : ∀ {s : Session K S} {s' : Session K S'}, s.run = s'.run →
    b.together s.manager s'.manager → Compares b (x s) (y s')
  first : ∀ {s : Session K S} {u' : S'}, b.secondBehind s.manager u' →
    b.secondBehind (Manager.reached (x s)).manager u'
  second : ∀ {u : S} {s' : Session K S'}, b.firstBehind u s'.manager →
    b.firstBehind u (Manager.reached (y s')).manager

/-! ## Putting programs together -/

section Rules

variable {b : Beside m m'}

/-- Returning a value asks nothing of either manager. -/
theorem sideBySide_pure (a : α) : SideBySide b (pure a) (pure a) where
  compares hrun htogether := ⟨rfl, hrun, htogether⟩
  first h := h
  second h := h

/-- Failing for the same sort of reason asks nothing of either manager. -/
theorem sideBySide_throw {e : ScheduleError K E} {e' : ScheduleError K E'} (h : e.sort = e'.sort) :
    SideBySide b (throw e : SessionM K E S α) (throw e') where
  compares _ htogether := Or.inl ⟨h, htogether⟩
  first h := h
  second h := h

/-- What a program keeps, and what follows it keeps, both in a row keep. -/
theorem keeps_bind {x : SessionM K E S α} {f : α → SessionM K E S β} {P : S → Prop}
    {s : Session K S} (hx : P (Manager.reached (x s)).manager)
    (hf : ∀ a t, P t.manager → P (Manager.reached (f a t)).manager) :
    P (Manager.reached ((x >>= f) s)).manager := by
  cases hxs : x s with
  | ok a t =>
    rw [hxs] at hx
    rw [bind_apply_of_ok hxs]
    exact hf a t hx
  | error e t =>
    rw [hxs] at hx
    rwa [bind_apply_of_error hxs]

/-- Once the second manager is behind, whatever the first program does compares. -/
theorem compares_of_secondBehind {b : Beside m m'}
    {x : EStateM.Result (ScheduleError K E) (Session K S) α} {e : ScheduleError K E'}
    {t' : Session K S'} (h : b.secondBehind (Manager.reached x).manager t'.manager) :
    Compares b x (.error e t') := by
  cases x with
  | ok a t => exact h
  | error e t => exact Or.inr (Or.inr h)

/-- Once the first manager is behind, whatever the second program does compares. -/
theorem compares_of_firstBehind {b : Beside m m'} {e : ScheduleError K E} {t : Session K S}
    {y : EStateM.Result (ScheduleError K E') (Session K S') α}
    (h : b.firstBehind t.manager (Manager.reached y).manager) : Compares b (.error e t) y := by
  cases y with
  | ok a t => exact h
  | error e t => exact Or.inr (Or.inl h)

/-- A program that has stopped stays where it is, and the other one goes on. -/
theorem sideBySide_bind {x : SessionM K E S α} {y : SessionM K E' S' α}
    {f : α → SessionM K E S β} {g : α → SessionM K E' S' β} (hx : SideBySide b x y)
    (hf : ∀ a, SideBySide b (f a) (g a)) : SideBySide b (x >>= f) (y >>= g) where
  first {_ u'} h := keeps_bind (P := (b.secondBehind · u')) (hx.first h) fun a _ ht => (hf a).first ht
  second {u _} h := keeps_bind (P := b.firstBehind u) (hx.second h) fun a _ ht => (hf a).second ht
  compares := by
    intro s s' hrun htogether
    have hfirst := hx.compares hrun htogether
    cases hxs : x s with
    | ok a t =>
      rw [bind_apply_of_ok hxs]
      cases hys : y s' with
      | ok a' t' =>
        rw [hxs, hys] at hfirst
        obtain ⟨rfl, hrun', htogether'⟩ := hfirst
        rw [bind_apply_of_ok hys]
        exact (hf a).compares hrun' htogether'
      | error e' t' =>
        rw [hxs, hys] at hfirst
        rw [bind_apply_of_error hys]
        exact compares_of_secondBehind ((hf a).first hfirst)
    | error e t =>
      rw [bind_apply_of_error hxs]
      cases hys : y s' with
      | ok a' t' =>
        rw [hxs, hys] at hfirst
        rw [bind_apply_of_ok hys]
        exact compares_of_firstBehind ((hf a').second hfirst)
      | error e' t' =>
        rw [hxs, hys] at hfirst
        rw [bind_apply_of_error hys]
        exact hfirst

/-- Both programs see the same run, and neither looks at its manager. -/
theorem sideBySide_get {f : Session K S → SessionM K E S α} {g : Session K S' → SessionM K E' S' α}
    (h : ∀ s s', s.run = s'.run → SideBySide b (f s) (g s')) :
    SideBySide b (get >>= f) (get >>= g) where
  compares {s s'} hrun htogether := (h s s' hrun).compares hrun htogether
  first {s u'} hs := (h s ⟨s.run, u'⟩ rfl).first hs
  second {u s'} hs := (h ⟨s'.run, u⟩ s' rfl).second hs

/-- A choice on what both programs know takes the same branch in both. -/
theorem sideBySide_ite {p : Prop} [Decidable p] {x x' : SessionM K E S α}
    {y y' : SessionM K E' S' α} (hpos : p → SideBySide b x y) (hneg : ¬ p → SideBySide b x' y') :
    SideBySide b (if p then x else x') (if p then y else y') := by
  by_cases hp : p
  · rw [if_pos hp, if_pos hp]
    exact hpos hp
  · rw [if_neg hp, if_neg hp]
    exact hneg hp

/-- Changing the run asks nothing of either manager. -/
theorem sideBySide_update (f : Run K → Run K) :
    SideBySide b (update f : SessionM K E S Unit) (update f) where
  compares hrun htogether := ⟨rfl, congrArg f hrun, htogether⟩
  first h := h
  second h := h

/-- Asking the cost table asks nothing of either manager. -/
theorem sideBySide_consult (query : StateM (CostTable K) α) :
    SideBySide b (consult query : SessionM K E S α) (consult query) where
  compares := by
    intro s s' hrun htogether
    refine ⟨?_, ?_, htogether⟩
    · rw [hrun]
    · rw [hrun]
  first h := h
  second h := h

/-- Where the session ends after a call. -/
theorem reached_ask (m : Manager K E S) (k : K) (event : Event K) (s : Session K S) :
    (Manager.reached (ask k (m.answer event) s)).manager = m.after s.manager event := by
  rw [← Manager.reached_answer]
  unfold ask
  cases m.answer event s.manager <;> rfl

/-- The same call to both managers. -/
theorem sideBySide_ask (k : K) (event : Event K) :
    SideBySide b (ask k (m.answer event)) (ask k (m'.answer event)) where
  compares := by
    intro s s' hrun htogether
    have hanswer := b.answer event htogether
    unfold ask
    cases hx : m.answer event s.manager with
    | ok _ t =>
      cases hy : m'.answer event s'.manager with
      | ok _ t' =>
        rw [hx, hy] at hanswer
        exact ⟨rfl, hrun, hanswer⟩
      | error e' t' => rwa [hx, hy] at hanswer
    | error e t =>
      cases hy : m'.answer event s'.manager with
      | ok _ t' => rwa [hx, hy] at hanswer
      | error e' t' =>
        rw [hx, hy] at hanswer
        exact Or.inl ⟨rfl, hanswer⟩
  first := by
    intro s u' h
    rw [reached_ask]
    exact b.secondBehind_after event h
  second := by
    intro u s' h
    rw [reached_ask]
    exact b.firstBehind_after event h

/-- Programs that go the same way for each kind do so for a list of them. -/
theorem sideBySide_forM {f : K → SessionM K E S PUnit} {g : K → SessionM K E' S' PUnit}
    (h : ∀ k, SideBySide b (f k) (g k)) (ks : List K) : SideBySide b (ks.forM f) (ks.forM g) := by
  induction ks with
  | nil => exact sideBySide_pure _
  | cons k ks ih => exact sideBySide_bind (h k) fun _ => ih

end Rules

/-! ## The two phases -/

section Phases

variable [DecidableEq K] (b : Beside m m')

/-- Counting a consumer goes the same way. -/
theorem sideBySide_countConsumer (k : K) :
    SideBySide b (countConsumer m k) (countConsumer m' k) := by
  unfold countConsumer
  apply sideBySide_get
  intro s s' hrun
  rw [hrun]
  apply sideBySide_bind (sideBySide_update _)
  intro _
  apply sideBySide_get
  intro t t' hrun'
  rw [hrun']
  apply sideBySide_ite
  · intro _
    exact sideBySide_bind (sideBySide_update _) fun _ => sideBySide_ask k (.protect k)
  · intro _
    exact sideBySide_pure _

/-- Counting a kind and what it requires goes the same way. -/
theorem sideBySide_requestKind (depth : Nat) :
    ∀ k, SideBySide b (requestKind m depth k) (requestKind m' depth k) := by
  induction depth with
  | zero => exact fun _ => sideBySide_pure _
  | succ depth ih =>
    intro k
    unfold requestKind
    apply sideBySide_bind (sideBySide_ask k (.ensure k))
    intro _
    apply sideBySide_get
    intro s s' hrun
    simp only [hrun]
    apply sideBySide_ite
    · intro _
      exact sideBySide_bind (sideBySide_forM ih _) fun _ => sideBySide_countConsumer b k
    · intro _
      exact sideBySide_countConsumer b k

/-- A request goes the same way. -/
theorem sideBySide_request : SideBySide b (request m) (request m') := by
  unfold request
  apply sideBySide_get
  intro s s' hrun
  simp only [hrun]
  apply sideBySide_ite
  · intro _
    exact sideBySide_bind (sideBySide_forM (sideBySide_requestKind b _) _) fun _ =>
      sideBySide_update _
  · intro _
    exact sideBySide_throw rfl

/-- Settling a kind goes the same way. -/
theorem sideBySide_compressIfAlone (k : K) :
    SideBySide b (compressIfAlone m k) (compressIfAlone m' k) := by
  unfold compressIfAlone
  apply sideBySide_get
  intro s s' hrun
  simp only [hrun]
  apply sideBySide_ite
  · intro _
    apply sideBySide_bind (sideBySide_update _)
    intro _
    exact sideBySide_bind (sideBySide_ask k (.compress k)) fun _ => sideBySide_update _
  · intro _
    exact sideBySide_pure _

/-- Looking at a byproduct goes the same way. -/
theorem sideBySide_discardByproduct (k : K) :
    SideBySide b (discardByproduct m k) (discardByproduct m' k) := by
  unfold discardByproduct
  apply sideBySide_get
  intro s s' hrun
  rw [hrun]
  apply sideBySide_ite
  · intro _
    exact sideBySide_bind (sideBySide_ask k (.discard k true)) fun _ => sideBySide_update _
  · intro _
    exact sideBySide_pure _

/-- Releasing a kind goes the same way. -/
theorem sideBySide_release (k : K) : SideBySide b (release m k) (release m' k) := by
  unfold release
  apply sideBySide_get
  intro s s' hrun
  simp only [hrun]
  cases s'.run.degrees.decrement k with
  | error e => exact sideBySide_throw rfl
  | ok degrees =>
    simp only
    have hunprotect : ∀ (p : Prop) [Decidable p] (f : Run K → Run K), SideBySide b
        (if p then do update f; tell (m.unprotect k) else pure ())
        (if p then do update f; tell (m'.unprotect k) else pure ()) := by
      intro p _ f
      apply sideBySide_ite
      · intro _
        exact sideBySide_bind (sideBySide_update f) fun _ => sideBySide_ask k (.unprotect k)
      · intro _
        exact sideBySide_pure _
    apply sideBySide_bind (sideBySide_update _)
    intro _
    apply sideBySide_ite
    · intro _
      apply sideBySide_bind (sideBySide_ask k (.discard k (k ∉ s'.run.requestedKinds)))
      intro _
      exact sideBySide_bind (sideBySide_update _) fun _ => hunprotect _ _
    · intro _
      apply sideBySide_ite
      · intro _
        exact sideBySide_bind (sideBySide_compressIfAlone b k) fun _ => hunprotect _ _
      · intro _
        exact hunprotect _ _

/-- Building a kind goes the same way. -/
theorem sideBySide_constructNow (k : K) :
    SideBySide b (constructNow m k) (constructNow m' k) := by
  unfold constructNow
  apply sideBySide_get
  intro s s' hrun
  simp only [hrun]
  apply sideBySide_bind (sideBySide_ask k (.construct k (s'.run.mode = .compressed)))
  intro _
  apply sideBySide_bind (sideBySide_update _)
  intro _
  apply sideBySide_bind (sideBySide_forM (sideBySide_discardByproduct b) _)
  intro _
  exact sideBySide_forM (sideBySide_release b) _

/-- Building a kind after what it requires goes the same way. -/
theorem sideBySide_constructKind (depth : Nat) :
    ∀ top k, SideBySide b (constructKind m depth top k) (constructKind m' depth top k) := by
  induction depth with
  | zero => exact fun _ _ => sideBySide_pure _
  | succ depth ih =>
    intro top k
    unfold constructKind
    apply sideBySide_get
    intro s s' hrun
    rw [hrun]
    apply sideBySide_ite
    · intro _
      apply sideBySide_bind (sideBySide_consult _)
      intro order
      apply sideBySide_bind (sideBySide_forM (ih false) order)
      intro _
      apply sideBySide_bind (sideBySide_constructNow b k)
      intro _
      apply sideBySide_get
      intro t t' hrun'
      rw [hrun']
      apply sideBySide_ite
      · intro _
        exact sideBySide_compressIfAlone b k
      · intro _
        exact sideBySide_pure _
    · intro _
      exact sideBySide_pure _

/-- An evaluation goes the same way. -/
theorem sideBySide_evaluate : SideBySide b (evaluate m) (evaluate m') := by
  unfold evaluate
  apply sideBySide_get
  intro s s' hrun
  simp only [hrun]
  cases s'.run.phase with
  | fresh => exact sideBySide_throw rfl
  | evaluated => exact sideBySide_throw rfl
  | requested =>
    apply sideBySide_bind (sideBySide_consult _)
    intro order
    apply sideBySide_bind (sideBySide_forM (sideBySide_constructKind b _ true) order)
    intro _
    apply sideBySide_get
    intro t t' hrun'
    simp only [hrun']
    exact sideBySide_bind (sideBySide_update _) fun _ => sideBySide_pure _

/-- Both phases, from sessions with the same run. -/
theorem sideBySide_phases : SideBySide b (do request m; evaluate m) (do request m'; evaluate m') :=
  sideBySide_bind (sideBySide_request b) fun _ => sideBySide_evaluate b

end Phases

end Run

/-- Two runs of the same request go the same way to the end, or one of them stops at a refusal and is
behind the other. -/
theorem constructAll_compares [DecidableEq K] {m : Manager K E S} {m' : Manager K E' S'}
    (b : Beside m m') (registry : Registry K) (requested : List K) (mode : Mode) {s : S} {s' : S'}
    (h : b.together s s') :
    let x := constructAll registry m requested mode s
    let y := constructAll registry m' requested mode s'
    (outcome x = outcome y ∧ b.together (Manager.reached x) (Manager.reached y)) ∨
      ((∃ e, outcome x = .error e) ∧ b.firstBehind (Manager.reached x) (Manager.reached y)) ∨
      ((∃ e, outcome y = .error e) ∧ b.secondBehind (Manager.reached x) (Manager.reached y)) := by
  unfold constructAll
  cases Run.start registry requested mode with
  | error e => exact Or.inl ⟨rfl, h⟩
  | ok run =>
    have hrun : (⟨run, s⟩ : Session K S).run = (⟨run, s'⟩ : Session K S').run := rfl
    have hphases := (Run.sideBySide_phases b).compares hrun h
    dsimp only
    generalize (do Run.request m; Run.evaluate m : SessionM K E S (Schedule K)) ⟨run, s⟩ = x at hphases ⊢
    generalize (do Run.request m'; Run.evaluate m' : SessionM K E' S' (Schedule K)) ⟨run, s'⟩ = y
      at hphases ⊢
    cases x with
    | ok schedule t =>
      cases y with
      | ok schedule' t' =>
        obtain ⟨rfl, -, htogether⟩ := hphases
        exact Or.inl ⟨rfl, htogether⟩
      | error e' t' => exact Or.inr (Or.inr ⟨⟨_, rfl⟩, hphases⟩)
    | error e t =>
      cases y with
      | ok schedule' t' => exact Or.inr (Or.inl ⟨⟨_, rfl⟩, hphases⟩)
      | error e' t' =>
        rcases hphases with ⟨hsort, htogether⟩ | hfirst | hsecond
        · exact Or.inl ⟨congrArg Except.error hsort, htogether⟩
        · exact Or.inr (Or.inl ⟨⟨_, rfl⟩, hfirst⟩)
        · exact Or.inr (Or.inr ⟨⟨_, rfl⟩, hsecond⟩)

/-- A manager beside itself, as long as something holds that all calls keep. -/
def besideItself (m : Manager K E S) {P : S → Prop} (hP : ∀ call s, P s → P (m.after s call)) :
    Beside m m where
  together s s' := s = s' ∧ P s
  firstBehind _ _ := False
  secondBehind _ _ := False
  answer := by
    rintro event s _ ⟨rfl, hs⟩
    have hafter := hP event s hs
    cases hx : m.answer event s with
    | ok _ t => exact ⟨rfl, Manager.after_of_ok hx ▸ hafter⟩
    | error _ t => exact ⟨rfl, Manager.after_of_error hx ▸ hafter⟩
  firstBehind_after _ _ _ h := h
  secondBehind_after _ _ _ h := h

/-- What all calls keep, a run keeps, whether or not it succeeds. -/
theorem constructAll_keeps [DecidableEq K] {m : Manager K E S} {P : S → Prop}
    (hP : ∀ call s, P s → P (m.after s call)) (registry : Registry K) (requested : List K)
    (mode : Mode) {s : S} (hs : P s) :
    Ends (constructAll registry m requested mode) s (fun _ t => P t) fun _ t => P t := by
  have htogether : P (Manager.reached (constructAll registry m requested mode s)) := by
    rcases constructAll_compares (besideItself m hP) registry requested mode
      (show (besideItself m hP).together s s from ⟨rfl, hs⟩) with h | ⟨-, h⟩ | ⟨-, h⟩
    · exact h.2.2
    · exact h.elim
    · exact h.elim
  unfold Ends
  cases hx : constructAll registry m requested mode s with
  | ok schedule t => rwa [hx] at htogether
  | error e t => rwa [hx] at htogether

/-! ## Watched managers -/

/-- What a watched manager does with a call is what the manager does; it is written down. -/
theorem Manager.answer_traced (m : Manager K E S) (event : Event K) (t : Traced K S) :
    m.traced.answer event t =
      match m.answer event t.inner with
      | .ok u s => .ok u ⟨s, t.log ++ [⟨event, true⟩]⟩
      | .error e s => .error e ⟨s, t.log ++ [⟨event, false⟩]⟩ := by
  cases event <;> rfl

/-- Watching a manager does not change what it does. -/
def besideWatched (m : Manager K E S) : Beside m m.traced where
  together s t := t.inner = s
  firstBehind _ _ := False
  secondBehind _ _ := False
  answer := by
    rintro event _ t rfl
    rw [m.answer_traced]
    cases m.answer event t.inner <;> exact rfl
  firstBehind_after _ _ _ h := h
  secondBehind_after _ _ _ h := h

/-- A call was refused on the left at a position at which it was carried out on the right. -/
def Log.Parted (log log' : Log K) : Prop :=
  ∃ before event, log = before ++ [⟨event, false⟩] ∧ before ++ [⟨event, true⟩] <+: log'

/-- Logs that have parted stay so, whatever is called. -/
theorem Log.Parted.after {log : Log K} {m : Manager K E S} {t : Traced K S}
    (h : Log.Parted log t.log) (event : Event K) : Log.Parted log (m.traced.after t event).log := by
  obtain ⟨before, refused, hlog, hprefix⟩ := h
  obtain ⟨accepted, hafter⟩ := m.after_traced t event
  refine ⟨before, refused, hlog, ?_⟩
  rw [hafter]
  exact hprefix.trans (List.prefix_append ..)

/-- Two watched managers receive the same calls until one refuses what the other does not. -/
def besideTraced (m : Manager K E S) (m' : Manager K E' S') : Beside m.traced m'.traced where
  together t t' := t.log = t'.log
  firstBehind t t' := Log.Parted t.log t'.log
  secondBehind t t' := Log.Parted t'.log t.log
  answer := by
    intro event t t' hlog
    rw [m.answer_traced, m'.answer_traced, hlog]
    cases m.answer event t.inner with
    | ok _ s =>
      cases m'.answer event t'.inner with
      | ok _ s' => exact rfl
      | error _ s' => exact ⟨_, event, rfl, List.prefix_rfl⟩
    | error _ s =>
      cases m'.answer event t'.inner with
      | ok _ s' => exact ⟨_, event, rfl, List.prefix_rfl⟩
      | error _ s' => exact rfl
  firstBehind_after event _ _ h := h.after event
  secondBehind_after event _ _ h := h.after event

/-- Wherever both logs have a call, both were carried out or both refused. -/
def Log.SameAnswers (log log' : Log K) : Prop :=
  ∀ (i : Nat) (e e' : Entry K), log[i]? = some e → log'[i]? = some e' → e.accepted = e'.accepted

/-- Logs with the same list of answers have the same answers. -/
theorem Log.sameAnswers_of_map_eq {log log' : Log K}
    (h : log.map (·.accepted) = log'.map (·.accepted)) : SameAnswers log log' := by
  intro i e e' he he'
  have hi : (log.map (·.accepted))[i]? = (log'.map (·.accepted))[i]? := by rw [h]
  rw [List.getElem?_map, List.getElem?_map, he, he'] at hi
  exact Option.some.inj hi

/-- It does not matter which log comes first. -/
theorem Log.SameAnswers.symm {log log' : Log K} (h : SameAnswers log log') :
    SameAnswers log' log := fun i e e' he he' => (h i e' e he' he).symm

/-- Logs part where a call was carried out in one of them and refused in the other. -/
theorem Log.Parted.not_sameAnswers {log log' : Log K} (h : Parted log log') :
    ¬ SameAnswers log log' := by
  obtain ⟨before, event, rfl, rest, rfl⟩ := h
  intro hsame
  have hflag : false = true :=
    hsame before.length ⟨event, false⟩ ⟨event, true⟩ (by simp) (by simp)
  cases hflag

section Answers

variable [DecidableEq K]

/-- The calls that the manager receives while the kinds are built, oldest first. -/
def callsOf (registry : Registry K) (m : Manager K E S) (requested : List K) (mode : Mode) (s : S) :
    Log K :=
  (Manager.reached (constructAll registry m.traced requested mode (Traced.start s))).log

/-- What a run does is what it does while its manager is watched. -/
theorem constructAll_traced (registry : Registry K) (m : Manager K E S) (requested : List K)
    (mode : Mode) (s : S) :
    outcome (constructAll registry m requested mode s) =
        outcome (constructAll registry m.traced requested mode (Traced.start s)) ∧
      (Manager.reached (constructAll registry m.traced requested mode (Traced.start s))).inner =
        Manager.reached (constructAll registry m requested mode s) := by
  rcases constructAll_compares (besideWatched m) registry requested mode
    (show (besideWatched m).together s (Traced.start s) from rfl) with h | ⟨-, h⟩ | ⟨-, h⟩
  · exact h
  · exact h.elim
  · exact h.elim

/-- Managers that give the same answers receive the same calls, and the runs return the same. -/
theorem constructAll_sameAnswers (registry : Registry K) (requested : List K) (mode : Mode)
    (m : Manager K E S) (m' : Manager K E' S') {s : S} {s' : S'}
    (h : Log.SameAnswers (callsOf registry m requested mode s) (callsOf registry m' requested mode s')) :
    callsOf registry m requested mode s = callsOf registry m' requested mode s' ∧
      outcome (constructAll registry m requested mode s) =
        outcome (constructAll registry m' requested mode s') := by
  rcases constructAll_compares (besideTraced m m') registry requested mode
    (show (besideTraced m m').together (Traced.start s) (Traced.start s') from rfl)
    with ⟨houtcome, hlog⟩ | ⟨-, hparted⟩ | ⟨-, hparted⟩
  · refine ⟨hlog, ?_⟩
    rw [(constructAll_traced registry m requested mode s).1, houtcome,
      (constructAll_traced registry m' requested mode s').1]
  · exact absurd h hparted.not_sameAnswers
  · exact absurd h.symm hparted.not_sameAnswers

/-! ## The recorder as a manager that refuses nothing -/

/-- A recorder that refuses nothing is not behind any manager, and notes what the manager is told. -/
def besideRecorder (m : Manager K E S) :
    Beside m.traced (Recorder.manager : Manager K (InjectedFailure K) (Recorder K)) where
  together t r := r.failOn = none ∧ r.events = t.log.map (·.event)
  firstBehind _ _ := True
  secondBehind _ _ := False
  answer := by
    rintro event t r ⟨hwilling, hevents⟩
    have hnotes : ∃ r', Recorder.manager.answer event r = .ok () r' ∧ r'.failOn = none ∧
        r'.events = r.events ++ [event] := by
      cases event with
      | construct k compressed =>
        refine ⟨r.construct k compressed, ?_, hwilling, rfl⟩
        show (if r.failOn = some k then _ else _ : EStateM (InjectedFailure K) _ Unit) r = _
        rw [hwilling]
        rfl
      | _ => exact ⟨_, rfl, hwilling, rfl⟩
    obtain ⟨r', hok, hwilling', hevents'⟩ := hnotes
    rw [m.answer_traced, hok]
    cases m.answer event t.inner with
    | ok _ s => exact ⟨hwilling', by rw [hevents', hevents, List.map_append]; rfl⟩
    | error _ s => exact trivial
  firstBehind_after _ _ _ h := h
  secondBehind_after _ _ _ h := h

/-- A run that succeeds returns what the recorder makes of the request, and its manager received the calls
that the recorder noted. -/
theorem recorder_predicts (registry : Registry K) (requested : List K) (mode : Mode)
    (m : Manager K E S) {s t : S} {schedule : Schedule K}
    (h : constructAll registry m requested mode s = .ok schedule t) :
    ∃ r, constructAll registry Recorder.manager requested mode (.new none) = .ok schedule r ∧
      r.events = (callsOf registry m requested mode s).map (·.event) := by
  have htraced : outcome (constructAll registry m.traced requested mode (Traced.start s)) =
      .ok schedule := by
    rw [← (constructAll_traced registry m requested mode s).1, h]
    rfl
  rcases constructAll_compares (besideRecorder m) registry requested mode
    (show (besideRecorder m).together (Traced.start s) (.new none) from ⟨rfl, rfl⟩)
    with ⟨houtcome, -, hevents⟩ | ⟨⟨e, he⟩, -⟩ | ⟨-, hbehind⟩
  · rw [htraced] at houtcome
    unfold callsOf
    cases hr : constructAll registry Recorder.manager requested mode (.new none) with
    | ok schedule' r =>
      rw [hr] at houtcome hevents
      cases houtcome
      exact ⟨r, rfl, hevents⟩
    | error e r =>
      rw [hr] at houtcome
      cases houtcome
  · rw [htraced] at he
    cases he
  · exact hbehind.elim

end Answers

end TextIndex
