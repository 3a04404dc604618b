import BundleWiring.Attribute.Value
import BundleWiring.Error

/-!
# Clauses

A clause states a namespace, directives and attributes; capabilities and requirements are clauses.
Its namespace is not blank, and no name is both a directive and an attribute. Clauses are compared
without regard to the order of their directives and attributes.
-/

namespace BundleWiring

open Text

/-- A namespace with directives and attributes. -/
structure Clause where
  /-- The namespace. -/
  ns : String
  /-- The directives, in order. -/
  directives : Directives
  /-- The attributes, in order. -/
  attributes : Attributes
  /-- The namespace is more than blanks. -/
  ns_proper : trim ns.toList ≠ []
  /-- No directive is named like an attribute. -/
  disjoint : ∀ name ∈ directives.names, attributes.contains name = false

namespace Clause

/-- The clause with these parts, unless they break a rule. -/
def ofParts (ns : String) (directives : Directives) (attributes : Attributes) :
    Except Error Clause :=
  if hns : trim ns.toList = [] then .error (.rule .blankNamespace)
  else
    match h : directives.names.find? attributes.contains with
    | some name => .error (.rule (.ambiguousName name ns))
    | none => .ok
      { ns, directives, attributes
        ns_proper := hns
        disjoint := fun name hname => by simpa using List.find?_eq_none.mp h name hname }

instance : BEq Clause where
  beq c d := c.ns == d.ns && c.directives == d.directives && c.attributes == d.attributes

/-- A text, in quotes if it is empty or holds a separator. -/
def guardedChars (s : List Char) : List Char :=
  if s.isEmpty || s.any (fun c => c == ';' || c == ',' || c == '=') then '"' :: s ++ ['"'] else s

/-- An attribute as a parameter: texts and ranges without a type, lists in quotes. -/
def attributeChars (name : String) (value : AttrValue) : List Char :=
  let typed (s : List Char) : List Char :=
    name.toList ++ ':' :: value.typeName.toList ++ '=' :: s
  match value with
  | .str s => name.toList ++ '=' :: guardedChars s.toList
  | .range r => name.toList ++ '=' :: guardedChars r.chars
  | .list _ => typed ('"' :: value.chars ++ ['"'])
  | _ => typed value.chars

/-- A directive as a parameter. -/
def directiveChars (name value : String) : List Char :=
  name.toList ++ ':' :: '=' :: guardedChars value.toList

/-- The characters of a clause: its namespace, its attributes and its directives. -/
def chars (c : Clause) : List Char :=
  let parameters := c.attributes.entries.map (fun (name, value) => attributeChars name value) ++
    c.directives.entries.map (fun (name, value) => directiveChars name value)
  c.ns.toList ++ parameters.flatMap (';' :: ' ' :: ·)

/-- The written form of a clause. -/
def text (c : Clause) : String :=
  String.ofList c.chars

end Clause

/-- Something that a clause states. -/
class Stated (α : Type) where
  /-- The clause that states it. -/
  clause : α → Clause

end BundleWiring
