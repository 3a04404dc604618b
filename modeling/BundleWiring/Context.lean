import BundleWiring.Candidate
import BundleWiring.Repository

/-!
# Resolution

A context answers what has to be known while some resources are resolved over a repository: which
capabilities meet a requirement, the preferred one first, which requirements take part, and where
the capability of a fragment's host belongs among others.
-/

namespace BundleWiring

/-- Resources to resolve over a repository. -/
structure Context where
  /-- Where capabilities come from. -/
  repository : Repository
  /-- The resources that have to be resolved. -/
  mandatory : List Installed
  /-- The resources that are resolved if possible. -/
  optional : List Installed
  /-- The settings of the resolution. -/
  config : Config

namespace Context

variable (context : Context)

/-- The capabilities that meet a requirement, the preferred one first. Capabilities that are
preferred alike keep the order of the repository. -/
def findProviders (living : Nat → Bool) (r : Requirement) : List (Owned Capability) :=
  (context.repository.providers r).mergeSort fun a b => (Candidate.compare living a b).isLE

/-- Whether a requirement takes part in the resolution: it takes effect while resources are
resolved, and is not optional or optional ones take part. -/
def isEffective (r : Requirement) : Bool :=
  (r.directives.get? Names.effective).all (· == Names.resolve) &&
    (context.config.resolveOptional || !r.isOptional)

/-- Where a capability belongs among others: before the first one that is not preferred to it. -/
def hostedIndex (living : Nat → Bool) (ps : List (Owned Capability)) (hosted : Owned Capability) :
    Nat :=
  ps.findIdx fun p => (Candidate.compare living hosted p).isLE

/-- Some capabilities with another one at the place where it belongs. -/
def insertHosted (living : Nat → Bool) (ps : List (Owned Capability)) (hosted : Owned Capability) :
    List (Owned Capability) :=
  ps.insertIdx (hostedIndex living ps hosted) hosted

end Context

end BundleWiring
