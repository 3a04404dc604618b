import BundleWiring.Context

/-!
# Sessions

A session keeps what is being worked on: resource objects by name, single capabilities and
requirements by name, a capability set, a repository and a resolution over it. The resolution
shares the repository of the session until the session starts a new one, and keeps the older one
from then on. A resource object is in use while it is named, belongs to a repository in use or is
one of the resources to resolve.
-/

namespace BundleWiring

/-- How a capability or requirement is referred to. -/
inductive Reference where
  /-- By the name that it was kept under. -/
  | kept (name : String)
  /-- By its place at a named resource. -/
  | member (resource : String) (index : Nat)

/-- What a reference refers to in vain. -/
inductive Missing where
  /-- A name that nothing was kept under. -/
  | unknown (name : String)
  /-- A place where a resource has no capability. -/
  | capability (index : Nat)
  /-- A place where a resource has no requirement. -/
  | requirement (index : Nat)

/-- The wording of what is missing. -/
def Missing.message : Missing → String
  | .unknown name => name
  | .capability index => "capability " ++ String.ofList (Nat.toDigits 10 index)
  | .requirement index => "requirement " ++ String.ofList (Nat.toDigits 10 index)

/-- What is being worked on. -/
structure Session where
  /-- The number of the next resource object. -/
  nextId : Nat
  /-- The named resource objects. -/
  resources : Table Installed
  /-- The kept capabilities. -/
  keptCapabilities : Table (Owned Capability)
  /-- The kept requirements. -/
  keptRequirements : Table (Owned Requirement)
  /-- The capability set. -/
  set : CapabilitySet
  /-- The repository. -/
  repository : Repository
  /-- The repository of the resolution, if it is an older one. -/
  olderRepository : Option Repository
  /-- The resources that have to be resolved. -/
  mandatory : List Installed
  /-- The resources that are resolved if possible. -/
  optional : List Installed
  /-- The settings of the resolution. -/
  config : Config

namespace Session

/-- The session at its start. -/
def start : Session where
  nextId := 0
  resources := .empty
  keptCapabilities := .empty
  keptRequirements := .empty
  set := .empty []
  repository := .empty {}
  olderRepository := none
  mandatory := []
  optional := []
  config := {}

instance : Inhabited Session := ⟨start⟩

variable (s : Session)

/-- The resource objects in use. -/
def used : List Installed :=
  s.resources.values ++ s.repository.resources ++
    s.olderRepository.elim [] Repository.resources ++ s.mandatory ++ s.optional

/-- Whether the resource object with a number is in use. -/
def isLiving (id : Nat) : Bool :=
  s.used.any (·.id == id)

/-- The resolution. -/
def context : Context where
  repository := s.olderRepository.getD s.repository
  mandatory := s.mandatory
  optional := s.optional
  config := s.config

/-! ### References -/

/-- The resource object with a name. -/
def resource (name : String) : Except Missing Installed :=
  (s.resources.get? name).elim (.error (.unknown name)) .ok

/-- The capability that is referred to. -/
def capability : Reference → Except Missing (Owned Capability)
  | .kept name => (s.keptCapabilities.get? name).elim (.error (.unknown name)) .ok
  | .member name index => do
    let r ← s.resource name
    r.capabilities[index]?.elim (.error (.capability index)) .ok

/-- The requirement that is referred to. -/
def requirement : Reference → Except Missing (Owned Requirement)
  | .kept name => (s.keptRequirements.get? name).elim (.error (.unknown name)) .ok
  | .member name index => do
    let r ← s.resource name
    r.requirements[index]?.elim (.error (.requirement index)) .ok

/-! ### Resources -/

/-- The session with a new object for a resource, under a name that may have been in use. -/
def install (name : String) (r : Resource) : Installed × Session :=
  let object : Installed := ⟨s.nextId, r⟩
  (object, { s with nextId := s.nextId + 1, resources := s.resources.insert name object })

/-- The session without a name for a resource object. -/
def drop (name : String) : Session :=
  { s with resources := s.resources.erase name }

/-- The resources under their names. -/
def known : Table Resource :=
  .ofList (s.resources.entries.map fun (name, r) => (name, r.resource))

/-- The session after a capability is kept under a name. -/
def keepCapability (ref : Reference) (name : String) : Except Missing Session :=
  (fun p => { s with keptCapabilities := s.keptCapabilities.insert name p }) <$> s.capability ref

/-- The session after a requirement is kept under a name. -/
def keepRequirement (ref : Reference) (name : String) : Except Missing Session :=
  (fun r => { s with keptRequirements := s.keptRequirements.insert name r }) <$> s.requirement ref

/-! ### The capability set -/

/-- The session with an empty capability set that indexes some attributes. -/
def newSet (indexed : List String) : Session :=
  { s with set := .empty indexed }

/-- The session after some capabilities are added to the set. -/
def addToSet (refs : List Reference) : Except Missing Session :=
  (fun ps => { s with set := s.set.addAll ps }) <$> refs.mapM s.capability

/-- The session after all capabilities of a resource are added to the set. -/
def addResourceToSet (name : String) : Except Missing Session :=
  (fun r => { s with set := s.set.addAll r.capabilities }) <$> s.resource name

/-- The session after a capability is removed from the set, and whether it was there. -/
def removeFromSet (ref : Reference) : Except Missing (Bool × Session) :=
  (fun p => (s.set.holds p.handle, { s with set := s.set.remove p.handle })) <$> s.capability ref

/-! ### The repository -/

/-- The session with a new repository of some resources. The resolution goes on with the
repository that it has. -/
def newRepository (names : List String) (config : Config) : Except Missing Session :=
  (fun rs =>
    { s with
      repository := .ofList config rs
      olderRepository := some s.context.repository }) <$> names.mapM s.resource

/-- The session after a resource is added to the repository, and whether it was new there. -/
def addToRepository (name : String) : Except Missing (Bool × Session) :=
  (fun r => (s.repository.add r).map id ({ s with repository := · })) <$> s.resource name

/-- The session after a resource is removed from the repository, and whether it was there. -/
def removeFromRepository (name : String) : Except Missing (Bool × Session) :=
  (fun r => (s.repository.remove r.resource).map id ({ s with repository := · })) <$>
    s.resource name

/-! ### The resolution -/

/-- The session with a new resolution over its repository. -/
def newContext (mandatory optional : List String) (config : Config) : Except Missing Session := do
  let mandatory ← mandatory.mapM s.resource
  let optional ← optional.mapM s.resource
  return { s with olderRepository := none, mandatory, optional, config }

end Session

end BundleWiring
