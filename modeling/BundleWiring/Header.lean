import BundleWiring.Table
import BundleWiring.Text.Blank

/-!
# Manifest Headers

The value of a manifest header is a list of clauses, separated by commas. A clause is a list of
parameters, separated by semicolons; a parameter is a path, an attribute `key=value`, a typed
attribute `key:Type=value` or a directive `key:=value`. A value may be quoted, and then holds
separators; a backslash takes the next character literally and stays in the value.

Reading goes from parameter to parameter, so the first fault from the left is the one reported.
-/

namespace BundleWiring

open Text

/-- One clause of a header: paths, directives and attributes with raw values. -/
structure HeaderClause where
  /-- The parameters without a value, in order. -/
  paths : List String
  /-- The values of directives. -/
  directives : Table String
  /-- The values of attributes. -/
  attributes : Table String
  /-- The declared types of typed attributes. -/
  types : Table String

namespace HeaderClause

/-- The clause without parameters. -/
def empty : HeaderClause :=
  { paths := [], directives := .empty, attributes := .empty, types := .empty }

instance : Inhabited HeaderClause := ⟨empty⟩

end HeaderClause

namespace Header

/-- Why a text is no header. -/
inductive Fault where
  /-- A value without a key. -/
  | missingKey
  /-- A key whose value is blank. -/
  | missingValue (key : String)
  /-- A key that two attributes or two directives of one clause share. -/
  | duplicate (key : String)
  /-- A quoted value that is not closed. -/
  | unterminatedQuote
  /-- A text that ends before a value does. -/
  | unexpectedEnd
  deriving DecidableEq

/-- The wording of a fault. -/
def Fault.message : Fault → String
  | .missingKey => "missing key"
  | .missingValue key => s!"missing value for '{key}'"
  | .duplicate key => s!"duplicate '{key}'"
  | .unterminatedQuote => "unterminated quote"
  | .unexpectedEnd => "unexpected end of header"

/-- One parameter of a clause. -/
inductive Parameter where
  /-- A parameter without a value. -/
  | path (text : String)
  /-- An attribute, with its declared type if it has one. -/
  | attribute (key : String) (type : Option String) (value : String)
  /-- A directive. -/
  | directive (key value : String)

/-- What follows a parameter. -/
inductive Stop where
  /-- The end of the header. -/
  | finish
  /-- A semicolon and the text of the next parameter. -/
  | parameter (rest : List Char)
  /-- A comma and the text of the next clause. -/
  | clause (rest : List Char)

/-- The text that follows a parameter and its separator. -/
def Stop.rest : Stop → List Char
  | .finish => []
  | .parameter rest => rest
  | .clause rest => rest

/-- The characters that end a key or a path. -/
def isKeyEnd (c : Char) : Bool :=
  c == ':' || c == '=' || c == ',' || c == ';'

/-- The characters of a value and what follows it. A quoted value runs at least to its closing
quote, and from there on it is read as an unquoted one. -/
def scanValue : Bool → List Char → Except Fault (List Char × Stop)
  | false, [] => .ok ([], .finish)
  | true, [] => .error .unterminatedQuote
  | quoted, ['\\'] => .error (if quoted then .unterminatedQuote else .unexpectedEnd)
  | quoted, '\\' :: c :: s => (·.map (['\\', c] ++ ·) id) <$> scanValue quoted s
  | true, c :: s => (·.map (c :: ·) id) <$> scanValue (c != '"') s
  | false, ';' :: s => .ok ([], .parameter s)
  | false, ',' :: s => .ok ([], .clause s)
  | false, c :: s => (·.map (c :: ·) id) <$> scanValue false s

/-- A value without the quotes around it, if it has any. -/
def stripQuotes : List Char → List Char
  | '"' :: s => if s.getLast? = some '"' then s.dropLast else '"' :: s
  | s => s

/-- The trimmed value of a key, without quotes around it; it is blank only if it is quoted. -/
def finishValue (key : String) (raw : List Char) : Except Fault String :=
  let value := trim raw
  if value.isEmpty then .error (.missingValue key)
  else .ok (String.ofList (stripQuotes value))

/-- The raw value behind an equals sign, without the blanks it starts with, and what follows it. -/
def scanArgument (s : List Char) : Except Fault (List Char × Stop) :=
  match trimStart s with
  | [] => .error .unexpectedEnd
  | '"' :: s => (·.map ('"' :: ·) id) <$> scanValue true s
  | s => scanValue false s

/-- The value of a key, from behind the equals sign on, and what follows it. -/
def readValue (key : String) (s : List Char) : Except Fault (String × Stop) :=
  scanArgument s >>= fun (raw, stop) => (·, stop) <$> finishValue key raw

/-- The parameter of a key, from behind a colon on, and what follows it. What stands before the
equals sign is the type of an attribute; if nothing does, the parameter is a directive. -/
def readTyped (key : String) (s : List Char) : Except Fault (Parameter × Stop) :=
  match s.dropWhile (· != '=') with
  | [] => .error .unexpectedEnd
  | _ :: rest =>
    let type := s.takeWhile (· != '=')
    if type.isEmpty then (·.map (.directive key) id) <$> readValue key rest
    else (·.map (.attribute key (some (String.ofList (trim type)))) id) <$> readValue key rest

/-- The first parameter of a text and what follows it. -/
def readParameter (s : List Char) : Except Fault (Parameter × Stop) :=
  let key := String.ofList (trim (s.takeWhile (!isKeyEnd ·)))
  match s.dropWhile (!isKeyEnd ·) with
  | [] => .ok (.path key, .finish)
  | ';' :: s => .ok (.path key, .parameter s)
  | ',' :: s => .ok (.path key, .clause s)
  | c :: s =>
    if key.isEmpty then .error .missingKey
    else if c = '=' then (·.map (.attribute key none) id) <$> readValue key s
    else readTyped key s

/-! ### Each parameter takes at least one character of the text with it -/

/-- A result that was mapped is one that was read, with the same stop. -/
theorem exists_of_map_fst {α β : Type} {f : α → β} {x : Except Fault (α × Stop)} {b : β}
    {stop : Stop} (h : (·.map f id) <$> x = .ok (b, stop)) : ∃ a, x = .ok (a, stop) := by
  cases x with
  | error fault => simp [Functor.map, Except.map] at h
  | ok a =>
    have he : a.map f id = (b, stop) := by simpa [Functor.map, Except.map] using h
    exact ⟨a.1, by rw [← show a.2 = stop from congrArg Prod.snd he]⟩

/-- What follows a value that is scanned is no longer than the text. -/
theorem length_rest_scanValue {quoted : Bool} {s run : List Char} {stop : Stop}
    (h : scanValue quoted s = .ok (run, stop)) : stop.rest.length ≤ s.length := by
  fun_induction scanValue quoted s generalizing run <;>
    simp_all [Functor.map, Except.map, Stop.rest] <;> grind

/-- What follows a value behind blanks is no longer than the text. -/
theorem length_rest_scanArgument {s run : List Char} {stop : Stop}
    (h : scanArgument s = .ok (run, stop)) : stop.rest.length ≤ s.length := by
  have hs : (trimStart s).length ≤ s.length := (s.dropWhile_sublist isBlank).length_le
  unfold scanArgument at h
  split at h
  · simp at h
  · next t ht =>
    obtain ⟨run', hv⟩ := exists_of_map_fst h
    rw [ht, List.length_cons] at hs
    exact Nat.le_trans (length_rest_scanValue hv) (Nat.le_of_succ_le hs)
  · exact Nat.le_trans (length_rest_scanValue h) hs

/-- What follows a value that is read is no longer than the text. -/
theorem length_rest_readValue {key value : String} {s : List Char} {stop : Stop}
    (h : readValue key s = .ok (value, stop)) : stop.rest.length ≤ s.length := by
  unfold readValue at h
  cases hs : scanArgument s with
  | error fault => simp [hs, bind, Except.bind] at h
  | ok a =>
    obtain ⟨raw, stop'⟩ := a
    have hstop : stop' = stop := by
      cases hf : finishValue key raw <;>
        simp_all [bind, Except.bind, Functor.map, Except.map]
    exact hstop ▸ length_rest_scanArgument hs

/-- What follows a type and a value is no longer than the text. -/
theorem length_rest_readTyped {key : String} {s : List Char} {p : Parameter} {stop : Stop}
    (h : readTyped key s = .ok (p, stop)) : stop.rest.length ≤ s.length := by
  have hs : (s.dropWhile (· != '=')).length ≤ s.length := (s.dropWhile_sublist _).length_le
  unfold readTyped at h
  split at h
  · simp at h
  · next rest hrest =>
    rw [hrest, List.length_cons] at hs
    have hv : ∃ value, readValue key rest = .ok (value, stop) := by
      simp only at h
      split at h <;> exact exists_of_map_fst h
    obtain ⟨value, hv⟩ := hv
    exact Nat.le_trans (length_rest_readValue hv) (Nat.le_of_succ_le hs)

/-- What follows a parameter is shorter than the text that the parameter was read from. -/
theorem length_rest_readParameter {s : List Char} {p : Parameter} {stop : Stop}
    (h : readParameter s = .ok (p, stop)) : stop = .finish ∨ stop.rest.length < s.length := by
  have hs : (s.dropWhile (!isKeyEnd ·)).length ≤ s.length := (s.dropWhile_sublist _).length_le
  unfold readParameter at h
  simp only at h
  split at h
  · simp_all
  · next t ht =>
    obtain ⟨-, rfl⟩ : _ ∧ Stop.parameter t = stop := by simpa using h
    rw [ht] at hs
    exact .inr hs
  · next t ht =>
    obtain ⟨-, rfl⟩ : _ ∧ Stop.clause t = stop := by simpa using h
    rw [ht] at hs
    exact .inr hs
  -- What follows the value is no longer than what stands behind the sign.
  · next c t _ _ ht =>
    rw [ht, List.length_cons] at hs
    refine .inr (Nat.lt_of_le_of_lt ?_ hs)
    split at h
    · simp at h
    split at h
    · obtain ⟨value, hv⟩ := exists_of_map_fst h
      exact length_rest_readValue hv
    · exact length_rest_readTyped h

/-! ### Clauses -/

/-- A clause with one more parameter, unless the parameter repeats a key. -/
def addParameter (c : HeaderClause) : Parameter → Except Fault HeaderClause
  | .path text => .ok { c with paths := c.paths ++ [text] }
  | .directive key value =>
    if c.directives.contains key then .error (.duplicate key)
    else .ok { c with directives := c.directives.insert key value }
  | .attribute key type value =>
    if c.attributes.contains key then .error (.duplicate key)
    else
      .ok { c with
        attributes := c.attributes.insert key value
        types := type.elim c.types (c.types.insert key) }

/-- The clauses of a text that goes on with the clause `c`. -/
def clausesFrom (c : HeaderClause) (s : List Char) : Except Fault (List HeaderClause) :=
  match _h : readParameter s with
  | .error fault => .error fault
  | .ok (p, .finish) => ([·]) <$> addParameter c p
  | .ok (p, .parameter rest) => addParameter c p >>= (clausesFrom · rest)
  | .ok (p, .clause rest) =>
    addParameter c p >>= fun c => (c :: ·) <$> clausesFrom .empty rest
termination_by s.length
decreasing_by
  all_goals simpa [Stop.rest] using length_rest_readParameter _h

/-- The clauses of a header. A blank header has one clause, with a blank path. -/
def parse (text : String) : Except Fault (List HeaderClause) :=
  clausesFrom .empty text.toList

end Header

end BundleWiring
