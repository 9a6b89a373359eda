import TextIndex.Plan.Manager
import TextIndex.Plan.Error

/-!
# A manager that only takes notes

A recorder owns no structures. It writes down every call and keeps account of which kinds would be
there, protected and compressed; this is enough to see a plan without carrying it out. It can be
made to fail: on building one given kind, or, inside a faulty recorder, on any call that may fail at
all. A call that fails leaves no note.
-/

set_option autoImplicit false

namespace TextIndex

/-- The calls a manager receives. -/
inductive Action where
  | ensure
  | construct
  | discard
  | protect
  | unprotect
  | compress
deriving DecidableEq, Repr

/-- One call with its arguments. -/
inductive Event (K : Type) where
  | ensure (kind : K)
  | construct (kind : K) (compressed : Bool)
  | discard (kind : K) (intermediate : Bool)
  | protect (kind : K)
  | unprotect (kind : K)
  | compress (kind : K)
deriving DecidableEq, Repr

namespace Event

variable {K : Type}

/-- Which call it was. -/
def action : Event K → Action
  | ensure _ => .ensure
  | construct _ _ => .construct
  | discard _ _ => .discard
  | protect _ => .protect
  | unprotect _ => .unprotect
  | compress _ => .compress

/-- What the call was about. -/
def kind : Event K → K
  | ensure k | construct k _ | discard k _ | protect k | unprotect k | compress k => k

end Event

/-- A failure on purpose. -/
structure InjectedFailure (K : Type) where
  kind : K
deriving DecidableEq, Repr

def InjectedFailure.message {K : Type} [KindName K] (e : InjectedFailure K) : String :=
  s!"injected construction failure for {KindName.name e.kind}"

/-- The calls so far and the kinds they left there, protected and compressed. -/
structure Recorder (K : Type) where
  /-- Oldest first. -/
  events : List (Event K)
  liveKinds : KindSet K
  protectedKinds : KindSet K
  compressedKinds : KindSet K
  /-- The kind that it fails to build. -/
  failOn : Option K

namespace Recorder

variable {K : Type}

/-- No history, and failing to build the given kind, if any. -/
def new (failOn : Option K) : Recorder K := ⟨[], .empty, .empty, .empty, failOn⟩

/-- Writes down a call. -/
def note (r : Recorder K) (e : Event K) : Recorder K := { r with events := r.events ++ [e] }

/-- The kinds built, in order. -/
def constructionOrder (r : Recorder K) : List K :=
  (r.events.filter (·.action = .construct)).map Event.kind

variable [DecidableEq K]

/-- The event is a call of the given sort about the given kind. -/
def isCall (a : Action) (k : K) (e : Event K) : Bool := e.action = a ∧ e.kind = k

/-- How often a call was made about a kind. -/
def count (r : Recorder K) (a : Action) (k : K) : Nat := r.events.countP (isCall a k)

/-- How many events came before the first such call. -/
def position? (r : Recorder K) (a : Action) (k : K) : Option Nat := r.events.findIdx? (isCall a k)

def construct (r : Recorder K) (k : K) (compressed : Bool) : Recorder K :=
  let noted := r.note (.construct k compressed)
  { noted with
    liveKinds := r.liveKinds.insert k
    compressedKinds := if compressed then r.compressedKinds.insert k else r.compressedKinds }

def discard (r : Recorder K) (k : K) (intermediate : Bool) : Recorder K :=
  let noted := r.note (.discard k intermediate)
  { noted with
    liveKinds := r.liveKinds.erase k
    compressedKinds := r.compressedKinds.erase k }

def protect (r : Recorder K) (k : K) : Recorder K :=
  { r.note (.protect k) with protectedKinds := r.protectedKinds.insert k }

def unprotect (r : Recorder K) (k : K) : Recorder K :=
  { r.note (.unprotect k) with protectedKinds := r.protectedKinds.erase k }

def compress (r : Recorder K) (k : K) : Recorder K :=
  { r.note (.compress k) with compressedKinds := r.compressedKinds.insert k }

/-- The recorder as a manager. -/
def manager : Manager K (InjectedFailure K) (Recorder K) where
  ensure k := modify (·.note (.ensure k))
  construct k compressed := do
    if (← get).failOn = some k then throw ⟨k⟩
    modify (·.construct k compressed)
  discard k intermediate r := r.discard k intermediate
  protect k r := r.protect k
  unprotect k r := r.unprotect k
  compress k := modify (·.compress k)

end Recorder

/-- A recorder behind a list of calls that fail before they reach it. -/
structure FaultyRecorder (K : Type) where
  recorder : Recorder K
  faults : List (Action × K)

namespace FaultyRecorder

variable {K : Type}

/-- A recorder with no history and no further faults. -/
def new (failOn : Option K) : FaultyRecorder K := ⟨.new failOn, []⟩

variable [DecidableEq K]

/-- Passes a call on to the recorder, unless it is one that fails. -/
def guarded (a : Action) (k : K) (call : EStateM (InjectedFailure K) (Recorder K) Unit) :
    EStateM (InjectedFailure K) (FaultyRecorder K) Unit := fun s =>
  if (a, k) ∈ s.faults then .error ⟨k⟩ s
  else
    match call s.recorder with
    | .ok u r => .ok u { s with recorder := r }
    | .error e r => .error e { s with recorder := r }

/-- The faulty recorder as a manager. -/
def manager : Manager K (InjectedFailure K) (FaultyRecorder K) where
  ensure k := guarded .ensure k (Recorder.manager.ensure k)
  construct k compressed := guarded .construct k (Recorder.manager.construct k compressed)
  discard k intermediate s := { s with recorder := s.recorder.discard k intermediate }
  protect k s := { s with recorder := s.recorder.protect k }
  unprotect k s := { s with recorder := s.recorder.unprotect k }
  compress k := guarded .compress k (Recorder.manager.compress k)

end FaultyRecorder

end TextIndex
