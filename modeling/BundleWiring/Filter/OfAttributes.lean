import BundleWiring.Attribute.Value
import BundleWiring.Filter.Basic
import BundleWiring.Filter.Wildcard

/-!
# Filters for Given Attributes

A requirement may state the attributes that it wants instead of a filter. A version range becomes
bounds on the attribute, and every other value becomes the pattern that its written form is. The
conditions stand in the order of the attributes.
-/

namespace BundleWiring.Filter

/-- The conditions that an attribute lies in a version range. An excluded bound is the negation of
the opposite comparison. -/
def ofRange (name : String) (r : VersionRange) : List Filter :=
  let floor := r.floor.text
  let lower : Filter :=
    if r.floorIncluded then .comparison name .gte floor else .not (.comparison name .lte floor)
  let upper (ceiling : Version) : Filter :=
    if r.ceilingIncluded then .comparison name .lte ceiling.text
    else .not (.comparison name .gte ceiling.text)
  lower :: (r.ceiling.map upper).toList

/-- The conditions that one attribute has a given value. -/
def ofAttribute (name : String) : AttrValue → List Filter
  | .range r => ofRange name r
  | value => [ofPieces name (piecesOf value.text)]

/-- The conjunction of some conditions; one condition stands for itself. -/
def conjunction : List Filter → Filter
  | [] => .all
  | [f] => f
  | fs => .and fs

/-- The condition that all of some attributes have their given values. -/
def ofAttributes (attributes : Attributes) : Filter :=
  conjunction (attributes.entries.flatMap fun (name, value) => ofAttribute name value)

end BundleWiring.Filter
