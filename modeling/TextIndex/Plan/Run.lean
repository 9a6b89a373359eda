import TextIndex.Plan.Cost
import TextIndex.Plan.Degree
import TextIndex.Plan.Manager
import TextIndex.Plan.Mode
import TextIndex.Plan.Schedule
import TextIndex.Plan.Validation

/-!
# A run of the planner

A run builds the requested kinds of a valid registry through a manager, in two phases.

* `Run.request` walks every requirement path once and counts the consumers of each kind on the way.
  A kind with a second consumer is protected.
* `Run.evaluate` builds depth first, dear siblings before cheap ones. After a kind is built each of
  its requirements has one consumer less: with none left it is released, with one left that is not
  the client it is unprotected. What appeared on the side and has no consumer is released at once.
  In delayed mode a requested kind is compressed when only the client needs it any more.

Any call that the manager may refuse can stop a phase. The run then keeps everything done so far,
and the phase may be started again: it passes over what has been built.
-/

set_option autoImplicit false

namespace TextIndex

/-- How far a run has come. -/
inductive Phase where
  | fresh
  | requested
  | evaluated
deriving DecidableEq, Repr

/-- A count that remembers the least value it ever had. It is an integer, so that it can be said never
to be negative. -/
structure LiveCount where
  now : Int
  least : Int

namespace LiveCount

/-- Nothing counted yet. -/
def zero : LiveCount := ⟨0, 0⟩

/-- The count is `n` from here on. -/
def moveTo (c : LiveCount) (n : Int) : LiveCount := ⟨n, min c.least n⟩

end LiveCount

/-- The state of one run. -/
structure Run (K : Type) where
  costs : CostTable K
  requestedKinds : KindSet K
  mode : Mode
  degrees : DegreeMap K
  protectedKinds : KindSet K
  constructedKinds : KindSet K
  /-- Kinds whose compression has been asked for, whether or not the manager did it. -/
  compressedKinds : KindSet K
  schedule : Schedule K
  /-- Kinds built and not yet released. -/
  live : LiveCount
  phase : Phase

/-- A run and the state of the manager that serves it. -/
structure Session (K S : Type) where
  run : Run K
  manager : S

/-- Steps of a session that may stop early. -/
abbrev SessionM (K E S : Type) := EStateM (ScheduleError K E) (Session K S)

namespace Run

variable {K E S : Type}

/-- The registry that is planned with. -/
def registry (r : Run K) : Registry K := r.costs.registry

variable [DecidableEq K]

/-- Prepares a run, unless the registry or the request is refused. -/
def start (registry : Registry K) (requested : List K) (mode : Mode) :
    Except (ConfigError K) (Run K) := do
  registry.validateRequest requested
  return {
    costs := .new registry
    requestedKinds := .ofList requested
    mode
    degrees := .empty
    protectedKinds := .empty
    constructedKinds := .empty
    compressedKinds := .empty
    schedule := .empty
    live := .zero
    phase := .fresh }

/-! ## What a step does to the state -/

/-- The kind has been built. -/
def built (r : Run K) (k : K) : Run K :=
  { r with
    constructedKinds := r.constructedKinds.insert k
    live := r.live.moveTo (r.live.now + 1)
    schedule := r.schedule.addConstructed k (r.live.now + 1).toNat }

/-- The kind has been released after its last consumer. -/
def released (r : Run K) (k : K) : Run K :=
  { r with
    protectedKinds := r.protectedKinds.erase k
    live := r.live.moveTo (r.live.now - 1)
    schedule := r.schedule.addDiscarded k }

/-- Building a kind changes nothing in the registry. -/
theorem registry_built (r : Run K) (k : K) : (r.built k).registry = r.registry := rfl

/-- Building a kind changes no degrees: what it required is released in a step of its own. -/
@[simp] theorem degrees_built (r : Run K) (k : K) : (r.built k).degrees = r.degrees := rfl

/-- A built kind is entered as such. -/
@[simp] theorem constructedKinds_built (r : Run K) (k : K) :
    (r.built k).constructedKinds = r.constructedKinds.insert k := rfl

/-! ## Steps of a session -/

/-- Changes the run only. -/
def update (f : Run K → Run K) : SessionM K E S Unit :=
  modify fun s => { s with run := f s.run }

/-- Asks the manager for something it may refuse; a refusal names the kind. -/
def ask (k : K) (call : EStateM E S Unit) : SessionM K E S Unit := fun s =>
  match call s.manager with
  | .ok _ m => .ok () { s with manager := m }
  | .error e m => .error (.manager k e) { s with manager := m }

/-- Tells the manager something it cannot refuse. -/
def tell (call : S → S) : SessionM K E S Unit :=
  modify fun s => { s with manager := call s.manager }

/-- Consults the cost table of the run. -/
def consult {α : Type} (query : StateM (CostTable K) α) : SessionM K E S α := fun s =>
  let answer := query s.run.costs
  .ok answer.1 { s with run := { s.run with costs := answer.2 } }

/-! ## The request phase -/

/-- Counts one more consumer of a kind, and protects the kind at its second. -/
def countConsumer (m : Manager K E S) (k : K) : SessionM K E S Unit := do
  let previous := (← get).run.degrees.degree k
  update fun r => { r with degrees := r.degrees.increment k }
  if previous = 1 ∧ k ∉ (← get).run.protectedKinds then
    update fun r => { r with protectedKinds := r.protectedKinds.insert k }
    tell (m.protect k)

/-- Follows one requirement to `k`. What `k` itself requires is walked at its first occurrence
only. -/
def requestKind (m : Manager K E S) : Nat → K → SessionM K E S Unit
  | 0, _ => pure ()
  | depth + 1, k => do
    ask k (m.ensure k)
    let r := (← get).run
    if ¬ r.degrees.Contains k then
      (r.registry.requirements k).forM (requestKind m depth)
    countConsumer m k

/-- Counts the consumers of everything that the requested kinds need. -/
def request (m : Manager K E S) : SessionM K E S Unit := do
  let r := (← get).run
  if r.phase = .fresh then
    r.requestedKinds.toList.forM (requestKind m r.registry.depth)
    update fun r => { r with phase := .requested }
  else throw (.phase .alreadyRequested)

/-! ## The evaluation phase -/

/-- Compresses a requested kind when the client is its only consumer; asked for once at most. -/
def compressIfAlone (m : Manager K E S) (k : K) : SessionM K E S Unit := do
  let r := (← get).run
  if k ∈ r.requestedKinds ∧ r.degrees.degree k = 1 ∧ k ∉ r.compressedKinds then
    update fun r => { r with compressedKinds := r.compressedKinds.insert k }
    ask k (m.compress k)
    update fun r => { r with schedule := r.schedule.addCompressed k }

/-- A byproduct without consumers is released as soon as it appears. -/
def discardByproduct (m : Manager K E S) (k : K) : SessionM K E S Unit := do
  if (← get).run.degrees.degree k = 0 then
    tell (m.discard k true)
    update fun r => { r with schedule := r.schedule.addDiscarded k }

/-- Takes one consumer away from a kind, after that consumer has been built. -/
def release (m : Manager K E S) (k : K) : SessionM K E S Unit := do
  let r := (← get).run
  match r.degrees.decrement k with
  | .error e => throw (.invariant e)
  | .ok degrees =>
    let remaining := degrees.degree k
    update fun r => { r with degrees }
    if remaining = 0 then
      tell (m.discard k (k ∉ r.requestedKinds))
      update (released · k)
    else if r.mode = .delayed then
      compressIfAlone m k
    if remaining = 1 ∧ k ∉ r.requestedKinds then
      update fun r => { r with protectedKinds := r.protectedKinds.erase k }
      tell (m.unprotect k)

/-- Builds a kind whose requirements are there, and lets go of what is not needed any more. -/
def constructNow (m : Manager K E S) (k : K) : SessionM K E S Unit := do
  let r := (← get).run
  ask k (m.construct k (r.mode = .compressed))
  update (built · k)
  (r.registry.byproducts k).forM (discardByproduct m)
  (r.registry.requirements k).forM (release m)

/-- Builds a kind after everything that it requires, unless it has been built before. A kind that the
client's own list leads to may be compressed at once. -/
def constructKind (m : Manager K E S) : Nat → Bool → K → SessionM K E S Unit
  | 0, _, _ => pure ()
  | depth + 1, topLevel, k => do
    if k ∉ (← get).run.constructedKinds then
      let order ← consult (CostTable.dependencyOrder k)
      order.forM (constructKind m depth false)
      constructNow m k
      if (← get).run.mode = .delayed ∧ topLevel then
        compressIfAlone m k

/-- Builds the requested kinds and returns the account of the run. Afterwards each of them is there,
and everything else that was built for them is released. -/
def evaluate (m : Manager K E S) : SessionM K E S (Schedule K) := do
  let r := (← get).run
  match r.phase with
  | .fresh => throw (.phase .notRequested)
  | .evaluated => throw (.phase .alreadyEvaluated)
  | .requested =>
    let order ← consult (CostTable.constructionOrder r.requestedKinds.toList)
    order.forM (constructKind m r.registry.depth true)
    let schedule := (← get).run.schedule
    update fun r => { r with phase := .evaluated, schedule := .empty }
    return schedule

end Run

/-- Builds the requested kinds through a manager: both phases of a run of its own. -/
def constructAll {K E S : Type} [DecidableEq K] (registry : Registry K) (m : Manager K E S)
    (requested : List K) (mode : Mode) : EStateM (ScheduleError K E) S (Schedule K) := fun s =>
  match Run.start registry requested mode with
  | .error e => .error (.config e) s
  | .ok run =>
    match (do Run.request m; Run.evaluate m : SessionM K E S (Schedule K)) ⟨run, s⟩ with
    | .ok schedule session => .ok schedule session.manager
    | .error e session => .error e session.manager

end TextIndex
