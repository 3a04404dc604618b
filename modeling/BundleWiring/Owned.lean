import BundleWiring.Resource

/-!
# Owners

A resource that is in use is an object of its own, told apart from equal ones by its number. A
capability or requirement of it is identified by its owner and its place there. Whether the owner
is still in use is decided elsewhere and handed in as `living`: a clause shows its owner only while
the owner is in use.
-/

namespace BundleWiring

/-- A resource object. -/
structure Installed where
  /-- The number that tells objects apart. -/
  id : Nat
  /-- What the object is. -/
  resource : Resource

/-- A capability or requirement of a resource object. -/
structure Owned (α : Type) where
  /-- The object that it belongs to. -/
  owner : Installed
  /-- Its place among those of its owner. -/
  index : Nat
  /-- The capability or requirement itself. -/
  item : α

/-- What identifies a capability or requirement of a resource object. -/
structure Handle where
  /-- The number of the owner. -/
  owner : Nat
  /-- The place at the owner. -/
  index : Nat
  deriving DecidableEq

/-- Handles are ordered by owner and place. -/
instance : Ord Handle where
  compare := compareLex (compareOn Handle.owner) (compareOn Handle.index)

instance : Std.TransCmp (compare : Handle → Handle → Ordering) :=
  inferInstanceAs (Std.TransCmp (compareLex (compareOn Handle.owner) (compareOn Handle.index)))

instance : Std.LawfulEqCmp (compare : Handle → Handle → Ordering) where
  eq_of_compare {a b} h := by
    obtain ⟨howner, hindex⟩ := Ordering.then_eq_eq.mp h
    rw [Handle.mk.injEq]
    exact ⟨Std.LawfulEqOrd.eq_of_compare howner, Std.LawfulEqOrd.eq_of_compare hindex⟩

/-- A set of handles. -/
abbrev HandleSet := Std.ExtTreeSet Handle

namespace Installed

/-- The capabilities of a resource object, in order. -/
def capabilities (r : Installed) : List (Owned Capability) :=
  r.resource.capabilities.mapIdx fun index item => { owner := r, index, item }

/-- The requirements of a resource object, in order. -/
def requirements (r : Installed) : List (Owned Requirement) :=
  r.resource.requirements.mapIdx fun index item => { owner := r, index, item }

/-- The capabilities of one namespace. -/
def capabilitiesIn (r : Installed) (ns : String) : List (Owned Capability) :=
  r.capabilities.filter (·.item.ns == ns)

/-- The requirements of one namespace. -/
def requirementsIn (r : Installed) (ns : String) : List (Owned Requirement) :=
  r.requirements.filter (·.item.ns == ns)

end Installed

namespace Owned

variable {α : Type}

/-- What identifies a capability or requirement. -/
def handle (o : Owned α) : Handle :=
  ⟨o.owner.id, o.index⟩

/-- The owner, while it is in use. -/
def livingOwner? (living : Nat → Bool) (o : Owned α) : Option Resource :=
  if living o.owner.id then some o.owner.resource else none

/-- The written form of the clause, after the owner in brackets while the owner is in use. -/
def text [Stated α] (living : Nat → Bool) (o : Owned α) : String :=
  let clause := (Stated.clause o.item).text
  (o.livingOwner? living).elim clause fun r => "[" ++ r.text ++ "] " ++ clause

end Owned

end BundleWiring
