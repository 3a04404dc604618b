import BundleWiring.Version.Basic

/-!
# Version Ranges

A range of versions has a floor and possibly a ceiling, each of which it may include or exclude.
The written form is `[a,b]`, `[a,b)`, `(a,b]` or `(a,b)`; a bare version stands for that version
and all later ones.
-/

namespace BundleWiring

open Text

/-- An interval of versions; without a ceiling it is unbounded above. -/
structure VersionRange where
  /-- The lower end. -/
  floor : Version
  /-- Whether the floor itself belongs to the range. -/
  floorIncluded : Bool
  /-- The upper end, if there is one. -/
  ceiling : Option Version
  /-- Whether the ceiling itself belongs to the range. -/
  ceilingIncluded : Bool
  deriving DecidableEq

namespace VersionRange

/-- All versions from `floor` on. -/
def atLeast (floor : Version) : VersionRange :=
  { floor, floorIncluded := true, ceiling := none, ceilingIncluded := false }

/-- The range of all versions. -/
def any : VersionRange :=
  atLeast .zero

/-- The range of one version. -/
def exact (v : Version) : VersionRange :=
  { floor := v, floorIncluded := true, ceiling := some v, ceilingIncluded := true }

instance : Inhabited VersionRange := ⟨any⟩

/-- Floors first, then ceilings; an excluded end precedes an included one and a missing ceiling
precedes every other. -/
instance : Ord VersionRange where
  compare := compareLex (compareOn floor) <| compareLex (compareOn floorIncluded) <|
    compareLex (compareOn ceiling) (compareOn ceilingIncluded)

/-- Membership of a version in a range. -/
def includes (r : VersionRange) (v : Version) : Bool :=
  let lower := compare r.floor v
  let upper := r.ceiling.map (compare v)
  (if r.floorIncluded then lower.isLE else lower.isLT) &&
    upper.all fun o => if r.ceilingIncluded then o.isLE else o.isLT

/-- The characters of a range: its floor alone if it has no ceiling. -/
def chars (r : VersionRange) : List Char :=
  match r.ceiling with
  | none => r.floor.chars
  | some ceiling =>
    (if r.floorIncluded then '[' else '(') :: r.floor.chars ++
      ',' :: ceiling.chars ++ [if r.ceilingIncluded then ']' else ')']

/-- The written form of a range. -/
def text (r : VersionRange) : String :=
  String.ofList r.chars

/-- An end of an interval: a version that is not blank. -/
def bound? (s : List Char) : Option Version :=
  if (trim s).isEmpty then none else Version.parse? (String.ofList s)

/-- The interval in a text that starts with an opening bracket, holds a comma and ends with a
closing bracket; `low` stands before the first comma and `high` after it. -/
def interval? (low high : List Char) : Option VersionRange := do
  let (floorIncluded, low) ← match low with
    | '[' :: s => some (true, s)
    | '(' :: s => some (false, s)
    | _ => none
  let ceilingIncluded ← match high.getLast? with
    | some ']' => some true
    | some ')' => some false
    | _ => none
  let floor ← bound? low
  let ceiling ← bound? high.dropLast
  return { floor, floorIncluded, ceiling := some ceiling, ceilingIncluded }

/-- The range in a text: an interval, or a bare version for all versions from it on. Blanks
around it are ignored, and a blank text is the range of all versions. -/
def parse? (text : String) : Option VersionRange :=
  let s := trim text.toList
  match s.span (· != ',') with
  | (_, []) => atLeast <$> Version.parse? (String.ofList s)
  | (low, _ :: high) => interval? low high

end VersionRange

end BundleWiring
