import BundleWiring.Filter.Basic
import BundleWiring.Filter.Wildcard
import BundleWiring.Text.Blank
import BundleWiring.Text.Quoted

/-!
# Reading Filters

The grammar of filters, with blank space between parentheses:

* a filter is a body in parentheses;
* a body is `&` or `|` with one or more filters, `!` with a filter, `*`, or an item;
* an item is a name, one of the signs `=`, `<=`, `>=`, `~=`, and an operand in which parentheses
  are escaped.

A name may itself start with `&`, `|`, `!` or `*`. A body that cannot be read as an operator is
therefore read once more as an item, and it is the fault of the item that is reported. A
parenthesis that opens inside an operand ends the reading at once.
-/

namespace BundleWiring.Filter

open Text

/-- What was missing where reading failed. -/
inductive Missing where
  /-- A parenthesis or the sign of a comparison. -/
  | sign
  /-- The name of an attribute. -/
  | name
  /-- A name that is more than blanks. -/
  | properName
  /-- The parenthesis that ends an operand. -/
  | operandEnd
  /-- An escape before the parenthesis that opens inside an operand. -/
  | escape
  deriving DecidableEq

/-- Where reading failed, and why. -/
structure SyntaxFault where
  /-- What was missing. -/
  missing : Missing
  /-- The text from the place of the failure on. -/
  rest : List Char

/-- Whether nothing else is tried after a failure. -/
def SyntaxFault.isFinal (fault : SyntaxFault) : Bool :=
  fault.missing == .escape

/-- Why a text is no filter. -/
inductive Fault where
  /-- The text does not follow the grammar. -/
  | malformed (fault : SyntaxFault)
  /-- Text follows a complete filter. -/
  | trailing (rest : List Char)

/-- The code of what was missing. -/
def Missing.code : Missing → String
  | .sign => "Char"
  | .name => "TakeTill1"
  | .properName => "Verify"
  | .operandEnd => "Eof"
  | .escape => "Char"

/-- The wording of a syntax fault. -/
def SyntaxFault.message (fault : SyntaxFault) : String :=
  let severity := if fault.isFinal then "Failure" else "Error"
  s!"parse error: Parsing {severity}: Error \x7b input: " ++ quoted (String.ofList fault.rest) ++
    ", code: " ++ fault.missing.code ++ " \x7d"

/-- The wording of a fault. -/
def Fault.message : Fault → String
  | .malformed fault => fault.message
  | .trailing rest => "unexpected trailing input '" ++ String.ofList rest ++ "'"

/-- What reading a piece of syntax from a text gives: a value and a shorter text, or a fault. -/
abbrev Reading (α : Type) (s : List Char) : Type :=
  Except SyntaxFault (α × { rest : List Char // rest.length < s.length })

/-- The white space between parentheses. -/
def isSpace (c : Char) : Bool :=
  c == ' ' || c == '\t' || c == '\r' || c == '\n'

/-- A text without the white space it starts with. -/
def skipSpace (s : List Char) : List Char :=
  s.dropWhile isSpace

/-- What follows a character that has to come next. -/
def expect (c : Char) (s : List Char) : Except SyntaxFault (List Char) :=
  match s with
  | d :: rest => if d = c then .ok rest else .error ⟨.sign, s⟩
  | [] => .error ⟨.sign, []⟩

/-- The characters that end a name. -/
def isNameEnd (c : Char) : Bool :=
  c == '=' || c == '<' || c == '>' || c == '~' || c == '(' || c == ')'

/-- The sign of a comparison and what follows it. -/
def readComparison (s : List Char) : Except SyntaxFault (Comparison × List Char) :=
  match s with
  | '<' :: '=' :: rest => .ok (.lte, rest)
  | '>' :: '=' :: rest => .ok (.gte, rest)
  | '~' :: '=' :: rest => .ok (.approx, rest)
  | '=' :: rest => .ok (.eq, rest)
  | _ => .error ⟨.sign, s⟩

/-- An operand with its escapes, up to the first parenthesis that is not escaped or to the end of
the text, and what follows it. -/
def spanOperand : List Char → List Char × List Char
  | '\\' :: c :: s => (spanOperand s).map (['\\', c] ++ ·) id
  | c :: s => if c = '(' ∨ c = ')' then ([], c :: s) else (spanOperand s).map (c :: ·) id
  | [] => ([], [])

/-- The operand of a comparison and what follows it, from the closing parenthesis on. -/
def readOperand (s : List Char) : Except SyntaxFault (List Char × List Char) :=
  match spanOperand s with
  | (_, []) => .error ⟨.operandEnd, s⟩
  | (raw, c :: rest) => if c = '(' then .error ⟨.escape, c :: rest⟩ else .ok (raw, c :: rest)

/-- The condition that an item states. -/
def item (name : List Char) (op : Comparison) (raw : List Char) : Filter :=
  let name := String.ofList name
  match op with
  | .eq => ofPieces name ((pieces raw).map String.ofList)
  | op => .comparison name op (String.ofList (unescape raw))

/-- A name, a comparison and an operand, and what follows them. -/
def readItem (s : List Char) : Except SyntaxFault (Filter × List Char) :=
  let name := s.takeWhile (!isNameEnd ·)
  if name.isEmpty then .error ⟨.name, s⟩
  else if (trimEnd name).isEmpty then .error ⟨.properName, s⟩
  else
    readComparison (s.dropWhile (!isNameEnd ·)) >>= fun (op, rest) =>
      (·.map (item (trimEnd name) op) id) <$> readOperand rest

/-! ### Reading shortens the text -/

/-- Skipping white space leaves no longer text. -/
theorem length_skipSpace_le (s : List Char) : (skipSpace s).length ≤ s.length :=
  (s.dropWhile_sublist isSpace).length_le

/-- What follows an expected character is shorter than the text. -/
theorem length_lt_of_expect {c : Char} {s rest : List Char} (h : expect c s = .ok rest) :
    rest.length < s.length := by
  unfold expect at h
  split at h
  · split at h <;> simp_all
  · simp at h

/-- What follows the sign of a comparison is no longer than the text. -/
theorem length_le_of_readComparison {s rest : List Char} {op : Comparison}
    (h : readComparison s = .ok (op, rest)) : rest.length ≤ s.length := by
  unfold readComparison at h
  split at h <;> simp at h <;> obtain ⟨-, rfl⟩ := h <;> simp <;> omega

/-- What follows an operand is no longer than the text. -/
theorem length_spanOperand_le (s : List Char) : (spanOperand s).2.length ≤ s.length := by
  fun_induction spanOperand s <;> simp_all <;> omega

/-- What follows an operand that is read is no longer than the text. -/
theorem length_le_of_readOperand {s raw rest : List Char} (h : readOperand s = .ok (raw, rest)) :
    rest.length ≤ s.length := by
  have hs := length_spanOperand_le s
  unfold readOperand at h
  split at h
  · simp at h
  · next hspan =>
    rw [hspan] at hs
    split at h
    · simp at h
    · obtain ⟨-, rfl⟩ : _ ∧ _ = rest := by simpa using h
      exact hs

/-- What follows an item is shorter than the text that the item was read from. -/
theorem length_lt_of_readItem {s rest : List Char} {f : Filter}
    (h : readItem s = .ok (f, rest)) : rest.length < s.length := by
  unfold readItem at h
  simp only at h
  split at h
  · simp at h
  · next hname =>
    -- The name is not empty, and no step behind it gives any of the text back.
    have hlen : 0 < (s.takeWhile (!isNameEnd ·)).length :=
      List.length_pos_iff.mpr (by simpa using hname)
    have hsplit := congrArg List.length (s.takeWhile_append_dropWhile (p := (!isNameEnd ·)))
    rw [List.length_append] at hsplit
    split at h
    · simp at h
    · cases hop : readComparison (s.dropWhile (!isNameEnd ·)) with
      | error fault => simp [hop, bind, Except.bind] at h
      | ok a =>
        obtain ⟨op, t⟩ := a
        cases hraw : readOperand t with
        | error fault => simp [hop, hraw, bind, Except.bind, Functor.map, Except.map] at h
        | ok b =>
          obtain ⟨raw, u⟩ := b
          obtain ⟨-, rfl⟩ : _ ∧ u = rest := by
            simpa [hop, hraw, bind, Except.bind, Functor.map, Except.map] using h
          have := length_le_of_readComparison hop
          have := length_le_of_readOperand hraw
          omega

/-! ### Filters -/

namespace Reading

variable {α β : Type} {s t : List Char}

/-- A reading of the end of a text as a reading of the text. -/
def widen (f : α → β) (h : t.length ≤ s.length) (r : Reading α t) : Reading β s :=
  r.map fun (a, rest) => (f a, ⟨rest, Nat.lt_of_lt_of_le rest.property h⟩)

/-- A reading, or another one if it fails and the failure is not final. -/
def orElse (r other : Reading α s) : Reading α s :=
  match r with
  | .error fault => if fault.isFinal then .error fault else other
  | .ok a => .ok a

/-- The reading of an item. -/
def ofItem (s : List Char) : Reading Filter s :=
  match h : readItem s with
  | .error fault => .error fault
  | .ok (f, rest) => .ok (f, ⟨rest, length_lt_of_readItem h⟩)

end Reading

mutual

/-- A filter in parentheses, with the white space around it. -/
def readFilter (s : List Char) : Reading Filter s :=
  match hopen : expect '(' (skipSpace s) with
  | .error fault => .error fault
  | .ok t =>
    match readBody (skipSpace t) with
    | .error fault => .error fault
    | .ok (f, rest) =>
      match hclose : expect ')' rest with
      | .error fault => .error fault
      | .ok u => .ok (f, ⟨skipSpace u, by
          have := length_lt_of_expect hopen
          have := length_lt_of_expect hclose
          have := rest.property
          have := length_skipSpace_le s
          have := length_skipSpace_le t
          have := length_skipSpace_le u
          omega⟩)
termination_by 2 * s.length
decreasing_by
  have := length_lt_of_expect hopen
  have := length_skipSpace_le s
  have := length_skipSpace_le t
  omega

/-- What stands between the parentheses of a filter. -/
def readBody (s : List Char) : Reading Filter s :=
  match s with
  | '&' :: t => (Reading.widen .and (by simp) (readFilters t)).orElse (.ofItem _)
  | '|' :: t => (Reading.widen .or (by simp) (readFilters t)).orElse (.ofItem _)
  | '!' :: t => (Reading.widen .not (by simp) (readFilter t)).orElse (.ofItem _)
  | '*' :: ')' :: t => .ok (.all, ⟨')' :: t, by simp⟩)
  | s => .ofItem s
termination_by 2 * s.length
decreasing_by all_goals simp only [List.length_cons]; omega

/-- One or more filters, as many as can be read. -/
def readFilters (s : List Char) : Reading (List Filter) s :=
  match readFilter s with
  | .error fault => .error fault
  | .ok (f, rest) =>
    match readFilters rest.val with
    | .error fault => if fault.isFinal then .error fault else .ok ([f], rest)
    | .ok (fs, rest') => .ok (f :: fs, ⟨rest', Nat.lt_trans rest'.property rest.property⟩)
termination_by 2 * s.length + 1
decreasing_by
  · exact Nat.lt_succ_self _
  · have := rest.property
    omega

end

/-- The filter in a text. -/
def parse (text : String) : Except Fault Filter :=
  match readFilter text.toList with
  | .error fault => .error (.malformed fault)
  | .ok (f, ⟨[], _⟩) => .ok f
  | .ok (_, ⟨rest, _⟩) => .error (.trailing rest)

end BundleWiring.Filter
