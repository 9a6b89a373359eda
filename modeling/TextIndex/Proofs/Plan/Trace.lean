import Mathlib.Data.List.Basic
import TextIndex.Plan.Recorder
import TextIndex.Plan.Run
import TextIndex.Proofs.Loops

/-!
# Watching a manager

What a run asks of its manager is seen by watching the manager: `Manager.traced` passes every call on
and writes it down, together with whether it was carried out. The manager itself is arbitrary, so it
may fail wherever a manager can.

The log says which kinds are there: `Log.Holds` holds of a kind that was built and not released
since.

Two managers that refuse calls now and then, `Manager.hesitant` and `Recorder.gated`, show what a run makes of
a refusal.
-/

set_option autoImplicit false

namespace TextIndex

variable {K E S : Type}

/-- A call that a manager received, and whether it was carried out. -/
structure Entry (K : Type) where
  event : Event K
  accepted : Bool
deriving DecidableEq

/-- The calls that a manager received, oldest first. -/
abbrev Log (K : Type) := List (Entry K)

/-- The state of a watched manager. -/
structure Traced (K S : Type) where
  inner : S
  log : Log K

namespace Traced

/-- A watched manager that has not been called. -/
def start (s : S) : Traced K S := ⟨s, []⟩

/-- Passes on a call that may be refused. -/
def ask (event : Event K) (call : EStateM E S Unit) : EStateM E (Traced K S) Unit := fun t =>
  match call t.inner with
  | .ok u s => .ok u ⟨s, t.log ++ [⟨event, true⟩]⟩
  | .error e s => .error e ⟨s, t.log ++ [⟨event, false⟩]⟩

/-- Passes on a call that cannot be refused. -/
def tell (event : Event K) (call : S → S) (t : Traced K S) : Traced K S :=
  ⟨call t.inner, t.log ++ [⟨event, true⟩]⟩

/-- A call that cannot be refused is written down as carried out. -/
@[simp] theorem log_tell (event : Event K) (call : S → S) (t : Traced K S) :
    (t.tell event call).log = t.log ++ [⟨event, true⟩] := rfl

/-- A call that was carried out is written down as such. -/
theorem log_of_ask_ok {event : Event K} {call : EStateM E S Unit} {t t' : Traced K S}
    (h : ask event call t = .ok () t') : t'.log = t.log ++ [⟨event, true⟩] := by
  unfold ask at h
  split at h
  · cases h
    rfl
  · cases h

/-- A call that was refused is written down as such. -/
theorem log_of_ask_error {event : Event K} {call : EStateM E S Unit} {t t' : Traced K S} {e : E}
    (h : ask event call t = .error e t') : t'.log = t.log ++ [⟨event, false⟩] := by
  unfold ask at h
  split at h
  · cases h
  · cases h
    rfl

end Traced

/-- The manager, watched. -/
def Manager.traced (m : Manager K E S) : Manager K E (Traced K S) where
  ensure k := Traced.ask (.ensure k) (m.ensure k)
  construct k compressed := Traced.ask (.construct k compressed) (m.construct k compressed)
  discard k intermediate := Traced.tell (.discard k intermediate) (m.discard k intermediate)
  protect k := Traced.tell (.protect k) (m.protect k)
  unprotect k := Traced.tell (.unprotect k) (m.unprotect k)
  compress k := Traced.ask (.compress k) (m.compress k)

namespace Entry

/-- The kind that the call built. -/
def built? : Entry K → Option K
  | ⟨.construct k _, true⟩ => some k
  | _ => none

/-- The call released the kind. -/
def Drops (e : Entry K) (k : K) : Prop := ∃ intermediate, e.event = .discard k intermediate

end Entry

namespace Log

/-- The kinds that were built, in order. -/
def builtKinds (log : Log K) : List K := log.filterMap Entry.built?

/-- The kind was built and has not been released since. -/
def Holds (log : Log K) (k : K) : Prop :=
  ∃ before compressed after, log = before ++ ⟨.construct k compressed, true⟩ :: after ∧
    ∀ e ∈ after, ¬ e.Drops k

/-- Whenever a kind was to be built, all that it requires was there. -/
def UsesHeld (r : Registry K) [DecidableEq K] (log : Log K) : Prop :=
  ∀ before k compressed accepted after,
    log = before ++ ⟨.construct k compressed, accepted⟩ :: after →
      ∀ q ∈ r.requirements k, Holds before q

/-- A kind that has just been built is there. -/
theorem holds_snoc_construct (log : Log K) (k : K) (compressed : Bool) :
    Holds (log ++ [⟨.construct k compressed, true⟩]) k := ⟨log, compressed, [], rfl, by simp⟩

/-- What is there stays there until it is released. -/
theorem Holds.snoc {log : Log K} {k : K} (h : Holds log k) {e : Entry K} (he : ¬ e.Drops k) :
    Holds (log ++ [e]) k := by
  obtain ⟨before, compressed, after, rfl, hafter⟩ := h
  refine ⟨before, compressed, after ++ [e], by simp, ?_⟩
  intro x hx
  rcases List.mem_append.1 hx with hx | hx
  · exact hafter x hx
  · rwa [List.mem_singleton.1 hx]

/-- A further call keeps the order of use if, should it build something, what that needs is there. -/
theorem UsesHeld.snoc [DecidableEq K] {r : Registry K} {log : Log K} (h : UsesHeld r log)
    {e : Entry K} (he : ∀ k compressed, e.event = .construct k compressed →
      ∀ q ∈ r.requirements k, Holds log q) : UsesHeld r (log ++ [e]) := by
  intro before k compressed accepted after heq q hq
  rcases snoc_eq_append_cons heq with ⟨rfl, rfl, -⟩ | ⟨rest, -, hsplit⟩
  · exact he k compressed rfl q hq
  · exact h before k compressed accepted rest hsplit q hq

/-- Every call satisfies `P` together with the calls before it. -/
def Always (P : Log K → Entry K → Prop) (log : Log K) : Prop :=
  ∀ before e after, log = before ++ e :: after → P before e

/-- What holds of all calls and of the next one holds of all calls then. -/
theorem Always.snoc {P : Log K → Entry K → Prop} {log : Log K} (h : Always P log) {e : Entry K}
    (he : P log e) : Always P (log ++ [e]) := by
  intro before x after heq
  rcases snoc_eq_append_cons heq with ⟨rfl, rfl, -⟩ | ⟨rest, -, hsplit⟩
  · exact he
  · exact h before x rest hsplit

/-- A log in which every call satisfies `P`, whatever was called before. -/
theorem always_of_mem {P : Log K → Entry K → Prop} {log : Log K}
    (h : ∀ e ∈ log, ∀ before, P before e) : Always P log := by
  rintro before e after rfl
  exact h e (by simp) before

end Log

/-! ## Managers that refuse now and then -/

/-- Refuses a call that is one of those given, unless one of them has been refused before. -/
def Manager.hesitate (refuses : Event K → Bool) (e : Event K) : EStateM Unit Bool Unit :=
  fun refusing => if refusing && refuses e then .error () false else .ok () refusing

/-- A manager that refuses the first of certain calls and carries out all others. Its state says whether
that call is still to come. -/
def Manager.hesitant (refuses : Event K → Bool) : Manager K Unit Bool where
  ensure k := hesitate refuses (.ensure k)
  construct k compressed := hesitate refuses (.construct k compressed)
  discard _ _ refusing := refusing
  protect _ refusing := refusing
  unprotect _ refusing := refusing
  compress k := hesitate refuses (.compress k)

namespace Recorder

/-- Passes a call on to the recorder, unless the next of the given answers is that it is refused. -/
def gate (k : K) (call : EStateM (InjectedFailure K) (Recorder K) Unit) :
    EStateM (InjectedFailure K) (List Bool × Recorder K) Unit := fun (answers, r) =>
  if answers.head? = some false then .error ⟨k⟩ (answers.tail, r)
  else
    match call r with
    | .ok u r' => .ok u (answers.tail, r')
    | .error e r' => .error e (answers.tail, r')

/-- A recorder behind a list of answers to the calls that may be refused. When the answers have run out
every call reaches the recorder. -/
def gated [DecidableEq K] : Manager K (InjectedFailure K) (List Bool × Recorder K) where
  ensure k := gate k (manager.ensure k)
  construct k compressed := gate k (manager.construct k compressed)
  discard k intermediate s := (s.1, s.2.discard k intermediate)
  protect k s := (s.1, s.2.protect k)
  unprotect k s := (s.1, s.2.unprotect k)
  compress k := gate k (manager.compress k)

end Recorder

end TextIndex
