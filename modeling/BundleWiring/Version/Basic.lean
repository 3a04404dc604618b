import BundleWiring.Text.Blank

/-!
# Versions

A version has three numbers and a qualifier, written `major.minor.micro` or
`major.minor.micro.qualifier`. Versions are ordered by their numbers and then by the characters
of their qualifiers. Reading accepts a blank text as `0.0.0` and fills in missing numbers with
zero.
-/

namespace BundleWiring

open Text

/-- The characters of a qualifier: ASCII letters and digits, the underscore and the dash. -/
def isQualifierChar (c : Char) : Bool :=
  c.isAlphanum || c == '_' || c == '-'

/-- A version `major.minor.micro` with a qualifier that may be empty. -/
structure Version where
  /-- The first number. -/
  major : UInt32
  /-- The second number. -/
  minor : UInt32
  /-- The third number. -/
  micro : UInt32
  /-- The qualifier; the empty text is no qualifier. -/
  qualifier : String
  /-- A qualifier holds qualifier characters only. -/
  qualifier_valid : qualifier.toList.all isQualifierChar = true
  deriving DecidableEq

namespace Version

/-- The version with these numbers and no qualifier. -/
def ofNumbers (major minor micro : UInt32) : Version :=
  { major, minor, micro, qualifier := "", qualifier_valid := by decide }

/-- The version `0.0.0`. -/
def zero : Version :=
  ofNumbers 0 0 0

instance : Inhabited Version := ⟨zero⟩

/-- The version with another qualifier, if the text is one. -/
def withQualifier? (v : Version) (qualifier : String) : Option Version :=
  if h : qualifier.toList.all isQualifierChar = true then
    some { v with qualifier, qualifier_valid := h }
  else
    none

/-- Numbers first, then qualifiers in the order of their characters. -/
instance : Ord Version where
  compare := compareLex (compareOn major) <| compareLex (compareOn minor) <|
    compareLex (compareOn micro) (compareOn qualifier)

/-- The text of the three numbers, joined by dots. -/
def numbersText (v : Version) : List Char :=
  Nat.toDigits 10 v.major.toNat ++ '.' :: Nat.toDigits 10 v.minor.toNat ++
    '.' :: Nat.toDigits 10 v.micro.toNat

/-- The characters of a version, without a trailing dot if there is no qualifier. -/
def chars (v : Version) : List Char :=
  if v.qualifier.toList.isEmpty then v.numbersText
  else v.numbersText ++ '.' :: v.qualifier.toList

/-- The written form `major.minor.micro[.qualifier]`. -/
def text (v : Version) : String :=
  String.ofList v.chars

/-- A number of a version: a non-empty run of ASCII digits below `2 ^ 32`. -/
def number? (digits : List Char) : Option UInt32 :=
  if digits.isEmpty || !digits.all Char.isDigit then none
  else
    let n := Nat.ofDigitChars 10 digits 0
    if n < UInt32.size then some (UInt32.ofNat n) else none

/-- Three numbers and a qualifier that is written out, and hence is not empty. -/
def qualified? (major minor micro qualifier : List Char) : Option Version := do
  let v := ofNumbers (← number? major) (← number? minor) (← number? micro)
  if qualifier.isEmpty then none else v.withQualifier? (String.ofList qualifier)

/-- The version in a text: blank for `0.0.0`, else one to three numbers, or three numbers and a
qualifier. Blanks around it are ignored. -/
def parse? (text : String) : Option Version :=
  match trim text.toList with
  | [] => some zero
  | s =>
    match s.splitOn '.' with
    | [a] => return ofNumbers (← number? a) 0 0
    | [a, b] => return ofNumbers (← number? a) (← number? b) 0
    | [a, b, c] => return ofNumbers (← number? a) (← number? b) (← number? c)
    | [a, b, c, q] => qualified? a b c q
    | _ => none

end Version

end BundleWiring
