import BundleWiring.Capability
import BundleWiring.Filter.Evaluation
import BundleWiring.Filter.OfAttributes

/-!
# Requirements

A requirement is a clause that says what a resource needs, with a filter that capabilities of the
namespace have to pass. The filter is the one in the directive `filter`; without the directive it
asks for the attributes of the clause.
-/

namespace BundleWiring

/-- What a resource needs. -/
structure Requirement where
  /-- The clause that states the requirement. -/
  clause : Clause
  /-- The condition on capabilities. -/
  filter : Filter

instance : Stated Requirement := ⟨Requirement.clause⟩

namespace Requirement

/-- The requirement with these parts and this filter, unless they break a rule. -/
def withFilter (ns : String) (directives : Directives) (attributes : Attributes)
    (filter : Filter) : Except Error Requirement :=
  ({ clause := ·, filter }) <$> Clause.ofParts ns directives attributes

/-- The filter that directives and attributes ask for. -/
def impliedFilter (directives : Directives) (attributes : Attributes) : Except Error Filter :=
  (directives.get? Names.filter).elim (.ok (.ofAttributes attributes)) Filter.read

/-- The requirement with these parts, unless they break a rule or the directive `filter` is no
filter. -/
def ofParts (ns : String) (directives : Directives) (attributes : Attributes) :
    Except Error Requirement :=
  impliedFilter directives attributes >>= withFilter ns directives attributes

instance : BEq Requirement := ⟨fun r s => r.clause == s.clause && r.filter == s.filter⟩

variable (r : Requirement)

/-- The namespace of a requirement. -/
def ns : String :=
  r.clause.ns

/-- The attributes of a requirement. -/
def attributes : Attributes :=
  r.clause.attributes

/-- The directives of a requirement. -/
def directives : Directives :=
  r.clause.directives

/-- Whether the requirement may stay unmet. -/
def isOptional : Bool :=
  r.directives.get? Names.resolution == some Names.optional

/-- Whether a capability meets a requirement: it has the namespace, passes the filter, and the
filter names its mandatory attributes. -/
def accepts (c : Capability) : Bool :=
  r.ns == c.ns && r.filter.accepts c.attributes && c.namedBy r.filter

end Requirement

end BundleWiring
