import BundleWiring.Requirement

/-!
# Resources

A resource is a bundle, a fragment or a feature: it has a name, a kind and a version, provides
capabilities and has requirements. The first capability of every resource states its identity.
-/

namespace BundleWiring

/-- A bundle, fragment or feature. -/
structure Resource where
  /-- The name. -/
  name : String
  /-- The kind of resource. -/
  kind : String
  /-- The version. -/
  version : Version
  /-- Whether the resource is the framework's own. -/
  system : Bool
  /-- What the resource provides besides its identity. -/
  provided : List Capability
  /-- What the resource needs. -/
  requirements : List Requirement

namespace Resource

/-- The attributes of the identity of a resource. -/
def identityAttributes (name kind : String) (version : Version) : Attributes :=
  .ofList [(Names.identity, .str name), (Names.type, .str kind), (Names.version, .version version)]

/-- The capability that states the identity of a resource. -/
def identity (name kind : String) (version : Version) : Capability where
  clause :=
    { ns := Names.identity
      directives := .empty
      attributes := identityAttributes name kind version
      ns_proper := by decide
      disjoint := by simp [Table.names, Table.empty] }
  mandatory_held := by simp [mandatoryNames, Table.get?, Table.empty]

variable (r : Resource)

/-- What a resource provides, its identity first. -/
def capabilities : List Capability :=
  identity r.name r.kind r.version :: r.provided

instance : BEq Resource where
  beq r s := r.name == s.name && r.kind == s.kind && r.version == s.version &&
    r.system == s.system && r.capabilities == s.capabilities && r.requirements == s.requirements

/-- The written form `name/version` of a resource. -/
def text : String :=
  r.name ++ "/" ++ r.version.text

end Resource

end BundleWiring
