import BundleWiring.CapabilitySet.Lookup
import BundleWiring.Config

/-!
# Repositories

A repository holds resource objects, no two of them equal, and one capability set for each
namespace that any of them has had capabilities of.
-/

namespace BundleWiring

/-- Resource objects with their capabilities by namespace. -/
structure Repository where
  /-- The settings of the repository. -/
  config : Config
  /-- The resource objects, in the order in which they were added. -/
  resources : List Installed
  /-- The capabilities of each namespace. -/
  sets : Table CapabilitySet

namespace Repository

/-- The repository without resources. -/
def empty (config : Config) : Repository where
  config
  resources := []
  sets := .empty

instance : Inhabited Repository := ⟨empty default⟩

variable (repo : Repository)

/-- Whether the repository holds a resource that is equal to the given one. -/
def holds (r : Resource) : Bool :=
  repo.resources.any (·.resource == r)

/-- The capabilities of a namespace, if there ever were any. -/
def set? (ns : String) : Option CapabilitySet :=
  repo.sets.get? ns

/-- The sets with one more capability, in the set of its namespace. -/
def addCapability (config : Config) (sets : Table CapabilitySet) (p : Owned Capability) :
    Table CapabilitySet :=
  let ns := p.item.ns
  let set := (sets.get? ns).getD (.empty (config.indexAttributesFor ns))
  sets.insert ns (set.add p)

/-- The sets without a capability. -/
def removeCapability (sets : Table CapabilitySet) (p : Owned Capability) : Table CapabilitySet :=
  match sets.get? p.item.ns with
  | none => sets
  | some set => sets.insert p.item.ns (set.remove p.handle)

/-- Whether a resource object is new to the repository, and the repository with it; an object is
not new if an equal one is held. -/
def add (r : Installed) : Bool × Repository :=
  if repo.holds r.resource then (false, repo)
  else
    (true, { repo with
      resources := repo.resources ++ [r]
      sets := r.capabilities.foldl (addCapability repo.config) repo.sets })

/-- Whether the repository holds a resource object that is equal to the given resource, and the
repository without the first such object. -/
def remove (r : Resource) : Bool × Repository :=
  match repo.resources.find? (·.resource == r) with
  | none => (false, repo)
  | some removed =>
    (true, { repo with
      resources := repo.resources.eraseP (·.resource == r)
      sets := removed.capabilities.foldl removeCapability repo.sets })

/-- The repository of some resource objects; of equal ones it holds the first. -/
def ofList (config : Config) (resources : List Installed) : Repository :=
  resources.foldl (fun repo r => (repo.add r).2) (empty config)

/-- The capabilities that meet a requirement, in the order of the repository. -/
def providers (r : Requirement) : List (Owned Capability) :=
  (repo.set? r.ns).elim [] (·.find r.filter true)

/-- The capabilities that meet each of some requirements, with equal requirements listed once. -/
def findProviders (rs : List Requirement) : List (Requirement × List (Owned Capability)) :=
  (rs.foldl (fun seen r => if seen.any (· == r) then seen else seen ++ [r]) []).map fun r =>
    (r, repo.providers r)

end Repository

end BundleWiring
