import BundleWiring.Clause
import BundleWiring.Text.Delimited

/-!
# Capabilities

A capability is a clause that says what a resource provides. Its directive `mandatory` lists
attributes that a requirement has to name if it is to use the capability; the capability must have
them.
-/

namespace BundleWiring

open Text

/-- The names in the directive `mandatory`. -/
def mandatoryNames (directives : Directives) : List String :=
  ((directives.get? Names.mandatory).elim [] (delimited · "," true)).filter (· ≠ "")

/-- What a resource provides. -/
structure Capability where
  /-- The clause that states the capability. -/
  clause : Clause
  /-- The capability has its mandatory attributes. -/
  mandatory_held : ∀ name ∈ mandatoryNames clause.directives, clause.attributes.contains name = true

instance : Stated Capability := ⟨Capability.clause⟩

namespace Capability

/-- The capability that a clause states, unless it lacks a mandatory attribute. -/
def ofClause (c : Clause) : Except Error Capability :=
  match h : (mandatoryNames c.directives).find? (!c.attributes.contains ·) with
  | some name => .error (.rule (.missingMandatory name c.ns))
  | none => .ok
    { clause := c
      mandatory_held := fun name hname => by simpa using List.find?_eq_none.mp h name hname }

/-- The capability with these parts, unless they break a rule. -/
def ofParts (ns : String) (directives : Directives) (attributes : Attributes) :
    Except Error Capability :=
  Clause.ofParts ns directives attributes >>= ofClause

instance : BEq Capability := ⟨fun c d => c.clause == d.clause⟩

variable (c : Capability)

/-- The namespace of a capability. -/
def ns : String :=
  c.clause.ns

/-- The attributes of a capability. -/
def attributes : Attributes :=
  c.clause.attributes

/-- The directives of a capability. -/
def directives : Directives :=
  c.clause.directives

/-- The attributes that a requirement has to name. -/
def mandatory : NameSet :=
  .ofList (mandatoryNames c.directives)

/-- Whether a filter names all mandatory attributes. -/
def namedBy (f : Filter) : Bool :=
  c.mandatory.toList.all f.conjuncts.contains

end Capability

end BundleWiring
