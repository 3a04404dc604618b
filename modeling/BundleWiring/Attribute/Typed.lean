import BundleWiring.Attribute.Value
import BundleWiring.Error
import BundleWiring.Text.Delimited

/-!
# Typed Attributes

The value of an attribute is read as its declared type: `String`, `Long`, `Double`, `Version`, or
`List<T>` with one of these as `T`. A bare `List` is a list of strings; its elements are separated
by commas.
-/

namespace BundleWiring.AttrValue

open Decimal Text

/-- The value of a type without elements. -/
def readScalar (name type raw : String) : Except Error AttrValue :=
  let value {α β : Type} (fault : α → ValueFault) (make : β → AttrValue) (r : Except α β) :
      Except Error AttrValue :=
    match r with
    | .ok v => .ok (make v)
    | .error e => .error (.value name raw (fault e))
  match type with
  | "String" => .ok (.str raw)
  | "Long" => value .integer .long (readInt64 (trim raw.toList))
  | "Double" => value .double .double (Binary64.read (trim raw.toList))
  | "Version" =>
    (Version.parse? raw).elim (.error (.value name raw (.version raw))) (.ok <| .version ·)
  | type => .error (.rule (.unknownType type name))

/-- The element type in what follows `List`: nothing for texts, or a type in angle brackets. -/
def elementType? (s : List Char) : Option String :=
  match trim s with
  | [] => some "String"
  | '<' :: s =>
    let inner := trim s.dropLast
    if s.getLast? = some '>' ∧ inner ≠ [] then some (String.ofList inner) else none
  | _ => none

/-- The value of the attribute `name` with a declared type. -/
def read (name type raw : String) : Except Error AttrValue :=
  let chars := trim type.toList
  if "List".toList.isPrefixOf chars then
    match elementType? (chars.drop 4) with
    | none => .error (.rule (.badListType name (String.ofList chars)))
    | some element => .list <$> (delimited raw "," false).mapM (readScalar name element)
  else
    readScalar name (String.ofList chars) raw

end BundleWiring.AttrValue
