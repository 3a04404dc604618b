import BundleWiring.CapabilitySet.Basic

/-!
# Looking up Capabilities

A set is searched with a filter. Equality on an indexed attribute is answered by the index, where
only the capabilities that are set apart have to be evaluated; conjunctions narrow down the
candidates one condition after the other.
-/

namespace BundleWiring.CapabilitySet

/-- The handles of some capabilities. -/
def handles (ps : List (Owned Capability)) : HandleSet :=
  .ofList (ps.map Owned.handle)

/-- The candidates that a filter accepts, each evaluated by itself. -/
def scan (candidates : List (Owned Capability)) (f : Filter) : List (Owned Capability) :=
  candidates.filter (f.accepts ·.item.attributes)

/-- The candidates that an equality accepts, by the index of its attribute. -/
def lookup (i : AttributeIndex) (candidates : List (Owned Capability)) (name operand : String) :
    List (Owned Capability) :=
  let bucket := i.buckets[operand]?.getD ∅
  candidates.filter fun p =>
    bucket.contains p.handle ||
      (i.unindexed.contains p.handle && (Filter.eq name operand).accepts p.item.attributes)

variable (s : CapabilitySet)

mutual

/-- The candidates that a filter accepts, in order. -/
def narrow (candidates : List (Owned Capability)) : Filter → List (Owned Capability)
  | .all => candidates
  | .and fs => narrowAll candidates fs
  | .or fs =>
    let found := collectAny candidates fs
    candidates.filter (found.contains ·.handle)
  | .not f =>
    let excluded := handles (narrow candidates f)
    candidates.filter (!excluded.contains ·.handle)
  | .comparison name .eq operand =>
    match s.indices[name]? with
    | some i => lookup i candidates name operand
    | none => scan candidates (.comparison name .eq operand)
  | f => scan candidates f

/-- The candidates that all of several filters accept. -/
def narrowAll (candidates : List (Owned Capability)) : List Filter → List (Owned Capability)
  | [] => candidates
  | f :: fs => if candidates.isEmpty then [] else narrowAll (narrow candidates f) fs

/-- The handles of the candidates that one of several filters accepts. -/
def collectAny (candidates : List (Owned Capability)) : List Filter → HandleSet
  | [] => ∅
  | f :: fs => handles (narrow candidates f) ∪ collectAny candidates fs

end

/-- The capabilities of the set that a filter accepts, in order; with `obeyMandatory`, only those
whose mandatory attributes the filter names. -/
def find (f : Filter) (obeyMandatory : Bool) : List (Owned Capability) :=
  (s.narrow s.capabilities f).filter fun p => !obeyMandatory || p.item.namedBy f

end BundleWiring.CapabilitySet
