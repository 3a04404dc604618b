import BundleWiring.Owned
import BundleWiring.Version.Qualifier

/-!
# Candidates

The capabilities that meet a requirement are its candidates. Those of the framework are preferred
to all others. In the namespaces of bundles, packages and identities, candidates are then ordered
by name, and those of one name by version, the highest first.
-/

namespace BundleWiring.Candidate

/-- The version that an attribute holds, also as a text; anything else counts as `0.0.0`. -/
def versionOf (attributes : Attributes) (name : String) : Version :=
  match attributes.get? name with
  | some (.version v) => v
  | some (.str s) => (Version.parse? s).getD .zero
  | _ => .zero

/-- The order by an attribute as it is; a missing one comes first. -/
def byName (name : String) (a b : Attributes) : Ordering :=
  compare (a.get? name) (b.get? name)

/-- The order by the version that an attribute holds, the highest first. -/
def byVersion (name : String) (a b : Attributes) : Ordering :=
  Version.compareNormalized (versionOf b name) (versionOf a name)

/-- The order of candidates within a namespace. -/
def compareIn (ns : String) (a b : Attributes) : Ordering :=
  if ns = Names.bundle then (byName ns a b).then (byVersion Names.bundleVersion a b)
  else if ns = Names.package then
    ((byName ns a b).then (byVersion Names.version a b)).then (byVersion Names.bundleVersion a b)
  else if ns = Names.identity then (byName ns a b).then (byVersion Names.version a b)
  else .eq

/-- Whether a capability is one of the framework; without an owner in use it is not. -/
def isSystem (living : Nat → Bool) (p : Owned Capability) : Bool :=
  (p.livingOwner? living).any (·.system)

/-- The order of candidates, the preferred one first. Candidates of different namespaces differ
only in whether they belong to the framework. -/
def compare (living : Nat → Bool) (a b : Owned Capability) : Ordering :=
  match isSystem living a, isSystem living b with
  | true, false => .lt
  | false, true => .gt
  | _, _ =>
    if a.item.ns = b.item.ns then compareIn a.item.ns a.item.attributes b.item.attributes else .eq

end BundleWiring.Candidate
