import BundleWiring.Decimal.Integer
import BundleWiring.Decimal.Shortest
import BundleWiring.Table
import BundleWiring.Version.Range

/-!
# Attribute Values

The value of an attribute is a text, a 64-bit integer, a double, a version, a version range or a
list of values. Values of different kinds are ordered by kind; values of one kind have the natural
order of the kind, and lists are ordered element by element. Two values are the same if neither
precedes the other.
-/

namespace BundleWiring

open Decimal

/-- The value of an attribute. -/
inductive AttrValue where
  /-- A text. -/
  | str (text : String)
  /-- A 64-bit integer. -/
  | long (value : Int64)
  /-- A double. -/
  | double (value : Binary64)
  /-- A version. -/
  | version (value : Version)
  /-- A version range. -/
  | range (value : VersionRange)
  /-- A list of values, not necessarily of one kind. -/
  | list (items : List AttrValue)

/-- Attribute values by name. -/
abbrev Attributes := Table AttrValue

/-- Directive values by name. -/
abbrev Directives := Table String

namespace AttrValue

instance : Inhabited AttrValue := ⟨.str ""⟩

/-- The place of a kind of values among the kinds. -/
def rank : AttrValue → Nat
  | .str _ => 0
  | .long _ => 1
  | .double _ => 2
  | .version _ => 3
  | .range _ => 4
  | .list _ => 5

mutual

/-- The order of values: by kind, then within the kind. -/
def cmp : AttrValue → AttrValue → Ordering
  | .str a, .str b => compare a b
  | .long a, .long b => compare a b
  | .double a, .double b => compare a b
  | .version a, .version b => compare a b
  | .range a, .range b => compare a b
  | .list as, .list bs => cmpAll as bs
  | a, b => compare a.rank b.rank

/-- The order of lists of values: the first difference decides, and a list precedes its
extensions. -/
def cmpAll : List AttrValue → List AttrValue → Ordering
  | [], [] => .eq
  | [], _ :: _ => .lt
  | _ :: _, [] => .gt
  | a :: as, b :: bs => (cmp a b).then (cmpAll as bs)

end

instance : Ord AttrValue := ⟨cmp⟩

instance : BEq AttrValue := ⟨fun a b => cmp a b == .eq⟩

/-- The text of a value that is a text. -/
def asText? : AttrValue → Option String
  | .str s => some s
  | _ => none

/-- The version of a value that is a version. -/
def asVersion? : AttrValue → Option Version
  | .version v => some v
  | _ => none

mutual

/-- The name of the type that a value is written with. A list has the type of its first
element. -/
def typeName : AttrValue → String
  | .str _ => "String"
  | .long _ => "Long"
  | .double _ => "Double"
  | .version _ => "Version"
  | .range _ => "VersionRange"
  | .list items => "List<" ++ elementType items ++ ">"

/-- The name of the type of the elements of a list. The elements of an empty list count as
texts. -/
def elementType : List AttrValue → String
  | [] => "String"
  | item :: _ => item.typeName

end

mutual

/-- The characters of a value. -/
def chars : AttrValue → List Char
  | .str s => s.toList
  | .long v => int64Chars v
  | .double v => v.chars
  | .version v => v.chars
  | .range r => r.chars
  | .list items => charsAll items

/-- The characters of several values, with commas between them. -/
def charsAll : List AttrValue → List Char
  | [] => []
  | [item] => item.chars
  | item :: items => item.chars ++ ',' :: charsAll items

end

/-- The written form of a value, without its type. -/
def text (v : AttrValue) : String :=
  String.ofList v.chars

/-- Values in ascending order; values that are the same keep their order. -/
def sort (values : List AttrValue) : List AttrValue :=
  values.mergeSort fun a b => (compare a b).isLE

end AttrValue

end BundleWiring
