import BundleWiring.CapabilitySet.Index

/-!
# Capability Sets

A capability set holds capabilities of resource objects, each at most once, in the order in which
they were added, and keeps an index for each of some chosen attributes.
-/

namespace BundleWiring

/-- Capabilities of resource objects, with indices. -/
structure CapabilitySet where
  /-- The capabilities, in the order in which they were added. -/
  capabilities : List (Owned Capability)
  /-- The index of each indexed attribute. -/
  indices : Std.ExtTreeMap String AttributeIndex

namespace CapabilitySet

/-- The set without capabilities that indexes some attributes. -/
def empty (indexed : List String) : CapabilitySet where
  capabilities := []
  indices := .ofList (indexed.map (·, AttributeIndex.empty))

instance : Inhabited CapabilitySet := ⟨empty []⟩

variable (s : CapabilitySet)

/-- Whether the set holds the capability with a handle. -/
def holds (h : Handle) : Bool :=
  s.capabilities.any (·.handle == h)

/-- The set with one more capability, unless it is there already. -/
def add (p : Owned Capability) : CapabilitySet :=
  if s.holds p.handle then s
  else
    { capabilities := s.capabilities ++ [p]
      indices := s.indices.map fun name i =>
        (p.item.attributes.get? name).elim i (i.insert p.handle) }

/-- The set with some more capabilities. -/
def addAll (ps : List (Owned Capability)) : CapabilitySet :=
  ps.foldl add s

/-- The set without the capability with a handle. -/
def remove (h : Handle) : CapabilitySet :=
  match s.capabilities.find? (·.handle == h) with
  | none => s
  | some p =>
    { capabilities := s.capabilities.filter (·.handle != h)
      indices := s.indices.map fun name i =>
        (p.item.attributes.get? name).elim i (i.remove h) }

/-- The number of capabilities. -/
def size : Nat :=
  s.capabilities.length

/-- The lines for some capabilities of the set, in the order of the set. -/
def dumpHandles (living : Nat → Bool) (handles : HandleSet) : List String :=
  (s.capabilities.filter (handles.contains ·.handle)).map fun p => "    " ++ p.text living

/-- The lines for the index of an attribute: its texts in ascending order, each with its
capabilities, and then the capabilities that are set apart. -/
def dumpIndex (living : Nat → Bool) (name : String) (i : AttributeIndex) : List String :=
  let group (title : String) (handles : HandleSet) : List String :=
    ("  " ++ title) :: s.dumpHandles living handles
  (name ++ ":") :: i.buckets.toList.flatMap (fun (value, handles) => group value handles) ++
    if i.unindexed.isEmpty then [] else group "<unindexed>" i.unindexed

/-- The contents of the indices, a line each. -/
def dump (living : Nat → Bool) : String :=
  let lines := s.indices.toList.flatMap fun (name, i) => s.dumpIndex living name i
  String.join (lines.map (· ++ "\n"))

end CapabilitySet

end BundleWiring
