import BundleWiring.Attribute.Value
import BundleWiring.Decimal.Reader
import BundleWiring.Filter.Basic
import BundleWiring.Filter.Wildcard
import BundleWiring.Text.Lowercase

/-!
# Evaluating Filters

A filter is evaluated on a table of attributes. A comparison reads its operand as a value of the
kind of the attribute and does not hold if it cannot be read; an attribute that is a list satisfies
what one of its elements satisfies. Patterns apply to texts alone.
-/

namespace BundleWiring

open Decimal Text

/-- Whether a comparison holds of values in this order. -/
def Comparison.holds : Comparison → Ordering → Bool
  | .eq, o => o.isEq
  | .approx, o => o.isEq
  | .lte, o => o.isLE
  | .gte, o => o.isGE

/-- A text in lower case and without blanks. -/
def foldCase (s : String) : List Char :=
  (s.toList.filter (!isBlank ·)).flatMap lowercase

/-- Whether a text compares with another one. -/
def Comparison.holdsText (op : Comparison) (s operand : String) : Bool :=
  match op with
  | .approx => foldCase s == foldCase operand
  | op => op.holds (compare s operand)

/-- Whether a version range compares with an operand; ranges are only equal or not. -/
def Comparison.holdsRange (op : Comparison) (r : VersionRange) (operand : String) : Bool :=
  match op with
  | .eq => VersionRange.parse? operand == some r
  | .approx => VersionRange.parse? operand == some r
  | _ => false

namespace AttrValue

mutual

/-- Whether a value compares with an operand. -/
def satisfies (op : Comparison) (operand : String) : AttrValue → Bool
  | .str s => op.holdsText s operand
  | .long v => (readInt64 (trim operand.toList)).toOption.any fun w => op.holds (compare v w)
  | .double v => (Binary64.read (trim operand.toList)).toOption.any fun w => op.holds (compare v w)
  | .version v => (Version.parse? operand).any fun w => op.holds (compare v w)
  | .range r => op.holdsRange r operand
  | .list items => anySatisfies op operand items

/-- Whether one of several values compares with an operand. -/
def anySatisfies (op : Comparison) (operand : String) : List AttrValue → Bool
  | [] => false
  | item :: items => item.satisfies op operand || anySatisfies op operand items

end

mutual

/-- Whether a value is a text that consists of pieces with anything between them. -/
def consistsOf (pieces : List String) : AttrValue → Bool
  | .str s => Filter.compareSubstring s pieces
  | .list items => anyConsistsOf pieces items
  | _ => false

/-- Whether one of several values is a text that consists of pieces. -/
def anyConsistsOf (pieces : List String) : List AttrValue → Bool
  | [] => false
  | item :: items => item.consistsOf pieces || anyConsistsOf pieces items

end

end AttrValue

namespace Filter

mutual

/-- Whether a filter holds of some attributes. -/
def accepts (attributes : Attributes) : Filter → Bool
  | .all => true
  | .and fs => acceptsAll attributes fs
  | .or fs => acceptsAny attributes fs
  | .not f => !f.accepts attributes
  | .comparison name op operand => (attributes.get? name).any (·.satisfies op operand)
  | .substring name pieces => (attributes.get? name).any (·.consistsOf pieces)
  | .present name => attributes.contains name

/-- Whether all of several filters hold of some attributes. -/
def acceptsAll (attributes : Attributes) : List Filter → Bool
  | [] => true
  | f :: fs => f.accepts attributes && acceptsAll attributes fs

/-- Whether one of several filters holds of some attributes. -/
def acceptsAny (attributes : Attributes) : List Filter → Bool
  | [] => false
  | f :: fs => f.accepts attributes || acceptsAny attributes fs

end

end Filter

end BundleWiring
