import BundleWiring.Filter.Basic

/-!
# Writing Filters

A filter is written in parentheses, the operator first: `(&(a=1)(!(b>=2)))`. Parentheses, stars
and backslashes in operands and pieces are preceded by a backslash; attribute names are written as
they are.
-/

namespace BundleWiring.Filter

/-- The characters that have a meaning in an operand. -/
def isSpecial (c : Char) : Bool :=
  c == '\\' || c == '(' || c == ')' || c == '*'

/-- A literal text as part of an operand. -/
def escape (s : List Char) : List Char :=
  s.flatMap fun c => if isSpecial c then ['\\', c] else [c]

/-- Pieces with stars between them. -/
def piecesChars (pieces : List String) : List Char :=
  ['*'].intercalate (pieces.map fun piece => escape piece.toList)

mutual

/-- The characters of a filter. -/
def chars : Filter → List Char
  | .all => ['(', '*', ')']
  | .and fs => '(' :: '&' :: charsAll fs ++ [')']
  | .or fs => '(' :: '|' :: charsAll fs ++ [')']
  | .not f => '(' :: '!' :: f.chars ++ [')']
  | .comparison name op operand =>
    '(' :: name.toList ++ op.chars ++ escape operand.toList ++ [')']
  | .substring name pieces => '(' :: name.toList ++ '=' :: piecesChars pieces ++ [')']
  | .present name => '(' :: name.toList ++ ['=', '*', ')']

/-- The characters of several filters, one after the other. -/
def charsAll : List Filter → List Char
  | [] => []
  | f :: fs => f.chars ++ charsAll fs

end

/-- The written form of a filter. -/
def text (f : Filter) : String :=
  String.ofList f.chars

end BundleWiring.Filter
