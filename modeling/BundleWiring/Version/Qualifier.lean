import BundleWiring.Version.Basic

/-!
# Build Qualifiers

Some builds write their qualifier as `redhat-` with six digits and some with a dash between the
third and the fourth of them. Providers are compared by the form with the dash.
-/

namespace BundleWiring

/-- What the builds with such qualifiers start them with. -/
def buildMark : List Char :=
  "redhat-".toList

/-- Whether a text starts with the mark and six digits. -/
def startsWithJoinedDigits (s : List Char) : Bool :=
  let digits := (s.drop buildMark.length).take 6
  buildMark.isPrefixOf s && digits.length == 6 && digits.all Char.isDigit

/-- A qualifier with a dash after the first three of six digits that follow the mark, wherever they
do; what was matched once is not matched again. -/
def normalizeQualifier (s : List Char) : List Char :=
  match s with
  | [] => []
  | c :: t =>
    if startsWithJoinedDigits (c :: t) then
      (c :: t).take (buildMark.length + 3) ++
        '-' :: ((c :: t).drop (buildMark.length + 3)).take 3 ++
        normalizeQualifier ((c :: t).drop (buildMark.length + 6))
    else
      c :: normalizeQualifier t
termination_by s.length
decreasing_by
  all_goals simp only [List.length_drop, List.length_cons]; omega

namespace Version

/-- The qualifier of a version in the form that providers are compared by. -/
def normalQualifier (v : Version) : String :=
  String.ofList (normalizeQualifier v.qualifier.toList)

/-- The order of versions by their numbers and then by their normalized qualifiers. -/
def compareNormalized : Version → Version → Ordering :=
  compareLex (compareOn major) <| compareLex (compareOn minor) <|
    compareLex (compareOn micro) (compareOn normalQualifier)

end Version

end BundleWiring
