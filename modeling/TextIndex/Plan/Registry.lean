import TextIndex.Plan.KindMap
import TextIndex.Plan.Provider

/-!
# The registry of providers

A registry holds one provider per kind, in the order of registration. It builds nothing: it answers
what a kind is built from and what else appears with it. A kind without a provider is built from
nothing and yields nothing.
-/

set_option autoImplicit false

namespace TextIndex

/-- A second provider was given for a kind. -/
structure DuplicateProvider (K : Type) where
  kind : K
deriving DecidableEq, Repr

/-- One provider per kind, in the order of registration. -/
structure Registry (K : Type) where
  providers : KindMap K (Provider K)

namespace Registry

variable {K : Type}

/-- No providers. -/
def empty : Registry K := ⟨.empty⟩

/-- The registered kinds, oldest first. -/
def kinds (r : Registry K) : List K := r.providers.keys

/-- The number of registered kinds. -/
def size (r : Registry K) : Nat := r.providers.size

/-- The kind has a provider. -/
def Contains (r : Registry K) (k : K) : Prop := r.providers.Contains k

/-- One more than the number of registered kinds: no chain of requirements in which no kind repeats
has more members. -/
def depth (r : Registry K) : Nat := r.size + 1

variable [DecidableEq K]

instance (r : Registry K) (k : K) : Decidable (r.Contains k) :=
  inferInstanceAs (Decidable (r.providers.Contains k))

/-- The provider of a kind. -/
def get? (r : Registry K) (k : K) : Option (Provider K) := r.providers.get? k

/-- What the kind is directly built from. -/
def requirements (r : Registry K) (k : K) : List K :=
  match r.get? k with
  | some p => p.requirements.toList
  | none => []

/-- What building the kind yields besides. -/
def byproducts (r : Registry K) (k : K) : List K :=
  match r.get? k with
  | some p => p.byproducts.toList
  | none => []

/-- The number of kinds that the kind is directly built from. -/
def inDegree (r : Registry K) (k : K) : Nat := (r.requirements k).length

/-- Adds the provider of a new kind. -/
def register (r : Registry K) (k : K) (p : Provider K) :
    Except (DuplicateProvider K) (Registry K) :=
  if r.Contains k then .error ⟨k⟩ else .ok ⟨r.providers.put k p⟩

/-- Registers kinds in order, each given with what it requires and what it yields. -/
def ofList (declarations : List (K × List K × List K)) :
    Except (DuplicateProvider K) (Registry K) :=
  declarations.foldlM (fun r d => r.register d.1 ((Provider.leaf.requires d.2.1).yields d.2.2)) empty

/-- Requirements do not repeat. -/
theorem nodup_requirements (r : Registry K) (k : K) : (r.requirements k).Nodup := by
  unfold requirements
  split
  · exact KindSet.nodup _
  · exact List.nodup_nil

end Registry

end TextIndex
