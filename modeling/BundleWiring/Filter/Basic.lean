import Std.Data.ExtTreeSet

/-!
# Filters

A filter is a condition on the attributes of a capability: a comparison of one attribute with a
text, a wildcard pattern, a test for presence, or a combination of such conditions.
-/

namespace BundleWiring

/-- A set of names, listed in ascending order. -/
abbrev NameSet := Std.ExtTreeSet String

/-- How an attribute is compared with a text. -/
inductive Comparison where
  /-- The attribute equals the text. -/
  | eq
  /-- The attribute is at most the text. -/
  | lte
  /-- The attribute is at least the text. -/
  | gte
  /-- The attribute equals the text up to case and blanks. -/
  | approx
  deriving DecidableEq

/-- The sign of a comparison. -/
def Comparison.chars : Comparison → List Char
  | .eq => ['=']
  | .lte => ['<', '=']
  | .gte => ['>', '=']
  | .approx => ['~', '=']

/-- A condition on attributes. -/
inductive Filter where
  /-- The condition that always holds. -/
  | all
  /-- All of the conditions hold. -/
  | and (filters : List Filter)
  /-- One of the conditions holds. -/
  | or (filters : List Filter)
  /-- The condition does not hold. -/
  | not (filter : Filter)
  /-- An attribute compares with a text. -/
  | comparison (name : String) (op : Comparison) (operand : String)
  /-- An attribute starts with the first piece, ends with the last piece and has the others in
  between, in order and without overlap. -/
  | substring (name : String) (pieces : List String)
  /-- An attribute has a value. -/
  | present (name : String)

namespace Filter

instance : Inhabited Filter := ⟨all⟩

/-- The condition that an attribute equals a text. -/
def eq (name operand : String) : Filter :=
  .comparison name .eq operand

/-- The condition that an attribute consists of pieces with anything between them. One piece is
equality, and two empty ones are presence. -/
def ofPieces (name : String) : List String → Filter
  | [] => eq name ""
  | [piece] => eq name piece
  | ["", ""] => .present name
  | pieces => .substring name pieces

/-- The attribute that a single condition is about. -/
def subject? : Filter → Option String
  | .comparison name _ _ => some name
  | .substring name _ => some name
  | .present name => some name
  | _ => none

mutual

/-- Whether two filters are the same tree. -/
def beq : Filter → Filter → Bool
  | .all, .all => true
  | .and fs, .and gs => beqAll fs gs
  | .or fs, .or gs => beqAll fs gs
  | .not f, .not g => f.beq g
  | .comparison a op x, .comparison b op' y => a == b && op == op' && x == y
  | .substring a ps, .substring b qs => a == b && ps == qs
  | .present a, .present b => a == b
  | _, _ => false

/-- Whether two lists of filters are the same, tree by tree. -/
def beqAll : List Filter → List Filter → Bool
  | [], [] => true
  | f :: fs, g :: gs => f.beq g && beqAll fs gs
  | _, _ => false

end

instance : BEq Filter := ⟨beq⟩

mutual

/-- The attributes of the conditions that are reached through conjunctions alone, in order. -/
def conjunctNames : Filter → List String
  | .and fs => conjunctNamesAll fs
  | f => f.subject?.toList

/-- The attributes of the conditions of several filters that are reached through conjunctions
alone. -/
def conjunctNamesAll : List Filter → List String
  | [] => []
  | f :: fs => f.conjunctNames ++ conjunctNamesAll fs

end

/-- The attributes that a filter names on every way to its being true: those of the conditions
that are reached through conjunctions alone. -/
def conjuncts (f : Filter) : NameSet :=
  .ofList f.conjunctNames

end Filter

end BundleWiring
