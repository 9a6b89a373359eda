import TextIndex.Plan.Registry
import TextIndex.Text.Quoted

/-!
# Failures of planning

Three things can be wrong with a plan before its manager is asked for anything: the registry is
inconsistent, the consumer counts are, or a phase is run out of turn. A fourth cause is the manager
itself. This file holds the causes and the sentence shown for each.
-/

set_option autoImplicit false

namespace TextIndex

/-- How a kind is written inside a message. -/
class KindName (K : Type) where
  name : K → String

/-- A kind that is a text is written in quotes. -/
instance : KindName String := ⟨Text.quoted⟩

/-- Items between brackets, separated by a comma and a blank. -/
def nameList {K : Type} [KindName K] (ks : List K) : String :=
  "[" ++ ", ".intercalate (ks.map KindName.name) ++ "]"

/-- The registry does not fit itself or what is asked of it. -/
inductive ConfigError (K : Type) where
  /-- A requested kind has no provider. -/
  | unregisteredKind (kind : K)
  /-- A provider requires a kind that has no provider. -/
  | unregisteredRequirement (kind requirement : K)
  /-- A provider yields a kind that has no provider. -/
  | unregisteredByproduct (kind byproduct : K)
  /-- Each kind on the path requires the next, and the last is the first. -/
  | cycle (path : List K)
deriving DecidableEq, Repr

/-- The consumer counts do not fit the requirements. -/
inductive InvariantError (K : Type) where
  /-- The kind was never counted. -/
  | orphan (kind : K)
  /-- The kind has no consumer left. -/
  | alreadyZero (kind : K)
deriving DecidableEq, Repr

/-- A phase was run out of turn. -/
inductive PhaseError where
  | alreadyRequested
  | notRequested
  | alreadyEvaluated
deriving DecidableEq, Repr

/-- Why a run stops. The manager's own failures are of type `E`. -/
inductive ScheduleError (K E : Type) where
  | config (cause : ConfigError K)
  | invariant (cause : InvariantError K)
  | phase (cause : PhaseError)
  /-- The manager failed while it handled `kind`. -/
  | manager (kind : K) (cause : E)
deriving DecidableEq, Repr

variable {K E : Type}

section Messages

variable [KindName K]

def DuplicateProvider.message (e : DuplicateProvider K) : String :=
  s!"provider for {KindName.name e.kind} is already registered"

def ConfigError.message : ConfigError K → String
  | .unregisteredKind k => s!"no provider registered for {KindName.name k}"
  | .unregisteredRequirement k r => s!"{KindName.name k} requires unregistered kind {KindName.name r}"
  | .unregisteredByproduct k b => s!"{KindName.name k} provides unregistered kind {KindName.name b}"
  | .cycle path => s!"requirement cycle: {nameList path}"

def InvariantError.message : InvariantError K → String
  | .orphan k => s!"decrease degree for orphan node {KindName.name k}"
  | .alreadyZero k => s!"degree already zero for node {KindName.name k}"

def PhaseError.message : PhaseError → String
  | .alreadyRequested => "request phase already completed"
  | .notRequested => "evaluation requires a completed request phase"
  | .alreadyEvaluated => "evaluation phase already completed"

/-- The sentence for a stopped run; a failure of the manager only names the kind. -/
def ScheduleError.message : ScheduleError K E → String
  | .config cause => cause.message
  | .invariant cause => cause.message
  | .phase cause => cause.message
  | .manager kind _ => s!"manager failed on {KindName.name kind}"

end Messages

end TextIndex
