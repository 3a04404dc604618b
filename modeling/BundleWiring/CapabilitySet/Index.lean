import BundleWiring.Owned
import Std.Data.ExtTreeMap

/-!
# Attribute Indices

An index groups capabilities by the texts that one of their attributes holds, as its value or as
an element of a list. Capabilities whose attribute holds something else than texts are set apart:
for them, equality with a text has to be evaluated.
-/

namespace BundleWiring

namespace AttrValue

mutual

/-- The texts that a value holds, at any depth of lists. -/
def texts : AttrValue → List String
  | .str s => [s]
  | .list items => textsAll items
  | _ => []

/-- The texts that several values hold. -/
def textsAll : List AttrValue → List String
  | [] => []
  | item :: items => item.texts ++ textsAll items

end

mutual

/-- Whether a value is or holds something else than texts and lists. -/
def holdsOther : AttrValue → Bool
  | .str _ => false
  | .list items => anyHoldsOther items
  | _ => true

/-- Whether one of several values is or holds something else than texts and lists. -/
def anyHoldsOther : List AttrValue → Bool
  | [] => false
  | item :: items => item.holdsOther || anyHoldsOther items

end

end AttrValue

/-- The capabilities with one attribute, by what the attribute holds. -/
structure AttributeIndex where
  /-- The capabilities whose attribute holds a text, for each such text. -/
  buckets : Std.ExtTreeMap String HandleSet
  /-- The capabilities whose attribute holds something else than texts. -/
  unindexed : HandleSet

namespace AttributeIndex

/-- The index of no capabilities. -/
def empty : AttributeIndex :=
  ⟨∅, ∅⟩

/-- The buckets after a handle is put into the bucket of a text. -/
def addTo (buckets : Std.ExtTreeMap String HandleSet) (h : Handle) (text : String) :
    Std.ExtTreeMap String HandleSet :=
  buckets.alter text fun bucket => some ((bucket.getD ∅).insert h)

/-- The buckets after a handle is taken from the bucket of a text; no empty bucket stays. -/
def removeFrom (buckets : Std.ExtTreeMap String HandleSet) (h : Handle) (text : String) :
    Std.ExtTreeMap String HandleSet :=
  buckets.alter text fun bucket =>
    (bucket.map (·.erase h)).filter (!·.isEmpty)

/-- The index with one more capability, whose attribute has a value. -/
def insert (i : AttributeIndex) (h : Handle) (value : AttrValue) : AttributeIndex where
  buckets := value.texts.foldl (addTo · h) i.buckets
  unindexed := if value.holdsOther then i.unindexed.insert h else i.unindexed

/-- The index without a capability, whose attribute has a value. -/
def remove (i : AttributeIndex) (h : Handle) (value : AttrValue) : AttributeIndex where
  buckets := value.texts.foldl (removeFrom · h) i.buckets
  unindexed := if value.holdsOther then i.unindexed.erase h else i.unindexed

end AttributeIndex

end BundleWiring
