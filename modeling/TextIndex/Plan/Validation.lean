import TextIndex.Plan.Error

/-!
# Checking a registry

A registry can be planned with when every kind that it mentions is registered and no kind requires
itself, directly or through others. `Registry.validate` reports the first fault in a fixed order:

* a mention of an unregistered kind, by the earliest registered kind that has one, requirements
  before byproducts;
* only if there is none, the first requirement cycle met by a depth-first walk over the kinds in
  the order of registration.
-/

set_option autoImplicit false

namespace TextIndex.Registry

variable {K : Type} [DecidableEq K]

/-- The first kind that a provider mentions without its being registered. -/
def danglingOf (r : Registry K) (k : K) (p : Provider K) : Option (ConfigError K) :=
  match p.requirements.toList.find? (¬ r.Contains ·) with
  | some q => some (.unregisteredRequirement k q)
  | none => (p.byproducts.toList.find? (¬ r.Contains ·)).map (.unregisteredByproduct k)

/-- The first mention of an unregistered kind in the whole registry. -/
def firstDangling (r : Registry K) : Option (ConfigError K) :=
  r.providers.entries.findSome? fun e => r.danglingOf e.1 e.2

/-- Walks everything that `k` requires, with `path` leading from the start of the walk to the kind
before `k`, and the kinds in `finished` known to be on no cycle. Returns the finished kinds, or the
cycle that closes when a requirement lies on the path. -/
def walk (r : Registry K) : Nat → List K → List K → K → Except (List K) (List K)
  | 0, _, finished, _ => .ok finished
  | depth + 1, path, finished, k => do
    let path := path ++ [k]
    let finished ← (r.requirements k).foldlM (fun finished q =>
      if q ∈ finished then .ok finished
      else if q ∈ path then .error (path.dropWhile (· ≠ q) ++ [q])
      else walk r depth path finished q) finished
    return finished ++ [k]

/-- Walks from every registered kind; the kinds finished on the way are not walked again. -/
def walkAll (r : Registry K) : Except (List K) (List K) :=
  r.kinds.foldlM (fun finished k =>
    if k ∈ finished then .ok finished else r.walk r.depth [] finished k) []

/-- Accepts the registries in which every mention is registered and no kind requires itself. -/
def validate (r : Registry K) : Except (ConfigError K) Unit :=
  match r.firstDangling with
  | some e => .error e
  | none =>
    match r.walkAll with
    | .ok _ => .ok ()
    | .error path => .error (.cycle path)

/-- Accepts a request for registered kinds from a valid registry; an unregistered kind in the request
is reported first. -/
def validateRequest (r : Registry K) (requested : List K) : Except (ConfigError K) Unit :=
  match requested.find? (¬ r.Contains ·) with
  | some k => .error (.unregisteredKind k)
  | none => r.validate

end TextIndex.Registry
