/-!
# Wildcard Patterns

The operand of an equality may hold stars, each of which stands for any text. A backslash takes
the next character literally. A pattern is cut at its stars into pieces: the first piece is where
a matching value starts, the last one where it ends, and the others lie in between, in order and
without overlap. Neighbouring stars count as one.
-/

namespace BundleWiring.Filter

/-- One sign of an operand: a literal character or an unescaped star. -/
inductive Sign where
  /-- A character that stands for itself. -/
  | literal (c : Char)
  /-- A star. -/
  | star
  deriving DecidableEq

/-- The signs of an operand. A backslash at the very end is dropped. -/
def signs : List Char → List Sign
  | [] => []
  | ['\\'] => []
  | '\\' :: c :: s => .literal c :: signs s
  | '*' :: s => .star :: signs s
  | c :: s => .literal c :: signs s

/-- A character that is neither a star nor a backslash stands for itself. -/
theorem signs_cons_of_ne {c : Char} (hstar : c ≠ '*') (hescape : c ≠ '\\') (s : List Char) :
    signs (c :: s) = .literal c :: signs s := by
  rw [signs.eq_def]
  split <;> simp_all

/-- The character of a sign. -/
def Sign.char : Sign → Char
  | .literal c => c
  | .star => '*'

/-- An operand without its escapes, where stars have no meaning. -/
def unescape (raw : List Char) : List Char :=
  (signs raw).map Sign.char

/-- The text before the first star, and the texts after each star. -/
def splitStars : List Sign → List Char × List (List Char)
  | [] => ([], [])
  | .literal c :: s => (splitStars s).map (c :: ·) id
  | .star :: s =>
    let (piece, pieces) := splitStars s
    ([], piece :: pieces)

/-- The pieces of an operand. Empty pieces stay only at the ends, where they mark a star. -/
def pieces (raw : List Char) : List (List Char) :=
  let (first, others) := splitStars (signs raw)
  first :: others.dropLast.filter (!·.isEmpty) ++ others.getLast?.toList

/-- The pieces of an operand as strings. -/
def piecesOf (raw : String) : List String :=
  (pieces raw.toList).map String.ofList

/-- What a value holds behind the first occurrence of a piece. -/
def afterFirst? (piece : List Char) : List Char → Option (List Char)
  | [] => if piece.isEmpty then some [] else none
  | c :: s =>
    if piece.isPrefixOf (c :: s) then some ((c :: s).drop piece.length) else afterFirst? piece s

/-- Whether a value consists of anything and the first piece, anything and the second piece, and
so on, up to the last piece at its end. Each piece is taken where it first occurs. -/
def endsWithPieces (value : List Char) : List (List Char) → Bool
  | [] => true
  | [last] => last.isSuffixOf value
  | piece :: pieces =>
    match afterFirst? piece value with
    | some rest => endsWithPieces rest pieces
    | none => false

/-- Whether a value matches the pattern with these pieces. A single piece is the value itself; no
pieces match every value. -/
def matchesPieces (value : List Char) : List (List Char) → Bool
  | [] => true
  | [piece] => value == piece
  | first :: pieces =>
    first.isPrefixOf value && endsWithPieces (value.drop first.length) pieces

/-- Whether a string matches the pattern with these pieces. -/
def compareSubstring (value : String) (pieces : List String) : Bool :=
  matchesPieces value.toList (pieces.map String.toList)

end BundleWiring.Filter
