import BundleWiring.Proofs.Text.Delimited

/-!
# Reading and Writing Delimited Lists

A delimited list can be read in one pass that keeps, besides the tokens found so far, which
characters it expects next, and that refuses any other character. Between two characters it always
expects one of two things, so it refuses nothing. In the other direction, every list of strings can
be written: each string with a backslash before every character that has a meaning, or as it is if
it stands between double quotes. This module proves:

- `ListPass.step_delimiter`, `ListPass.step_char`: what a pass does at a character;
- `ListPass.foldlM_step`: the tokens that a pass ends with, wherever it starts;
- `readDelimited_eq`: no text is refused, and the tokens are those of `delimited`;
- `spells_escapedChars`, `spells_quoted`: the two ways to write a string;
- `delimited_decodes`: lists are read without failure, and a written list is read back.
-/

namespace BundleWiring.Text

variable {isDelimiter : Char → Bool} {trimmed : Bool} {c d : Char} {s t : List Char}

/-! ### One pass over a list -/

/-- What a pass over a list can meet next. -/
structure Expectation where
  /-- A character that has no meaning. -/
  char : Bool
  /-- A delimiter. -/
  delimiter : Bool
  /-- A quote that opens. -/
  startQuote : Bool
  /-- A quote that closes. -/
  endQuote : Bool

/-- What can come outside of quotes, and what between them. -/
def Expectation.at (inside : Bool) : Expectation where
  char := true
  delimiter := !inside
  startQuote := !inside
  endQuote := inside

/-- A token as a list has it. -/
def finish (trimmed : Bool) (token : List Char) : String :=
  String.ofList (if trimmed then trim token else token)

/-- The state of a pass over a list. -/
structure ListPass where
  /-- The tokens that are complete. -/
  tokens : List String
  /-- The characters of the next token so far. -/
  current : List Char
  /-- What can come next. -/
  expected : Expectation
  /-- A backslash came last. -/
  escaped : Bool

namespace ListPass

/-- The state before the first character. -/
def start : ListPass where
  tokens := []
  current := []
  expected := .at false
  escaped := false

/-- The state after one more character, unless it is not expected. -/
def step (isDelimiter : Char → Bool) (trimmed : Bool) (p : ListPass) (c : Char) :
    Option ListPass :=
  if !p.escaped && c == '\\' then
    some { p with escaped := true }
  else if p.escaped then
    some { p with current := p.current ++ [c], escaped := false }
  else if isDelimiter c && p.expected.delimiter then
    some ⟨p.tokens ++ [finish trimmed p.current], [], .at false, false⟩
  else if c == '"' && p.expected.startQuote then
    some ⟨p.tokens, p.current ++ [c], .at true, false⟩
  else if c == '"' && p.expected.endQuote then
    some ⟨p.tokens, p.current ++ [c], .at false, false⟩
  else if p.expected.char then
    some { p with current := p.current ++ [c], escaped := false }
  else
    none

/-- The tokens when the text is at its end. -/
def result (trimmed : Bool) (p : ListPass) : List String :=
  if p.current.isEmpty then p.tokens else p.tokens ++ [finish trimmed p.current]

end ListPass

/-- The tokens of a delimited list, read in one pass, or the message that it cannot be read. -/
def readDelimited (text delimiters : String) (trimmed : Bool) : Except String (List String) :=
  match text.toList.foldlM (ListPass.step delimiters.toList.contains trimmed) .start with
  | some p => .ok (p.result trimmed)
  | none => .error ("unable to parse header '" ++ text ++ "': invalid delimited string")

/-! ### The pass refuses nothing -/

namespace ListPass

variable {done : List String} {current : List Char} {inside : Bool}

/-- An escaped character stands for itself, inside of quotes and outside. -/
theorem foldlM_step_escape : ('\\' :: c :: s).foldlM (step isDelimiter trimmed)
    ⟨done, current, .at inside, false⟩ = s.foldlM (step isDelimiter trimmed)
      ⟨done, current ++ [c], .at inside, false⟩ :=
  rfl

/-- A delimiter outside of quotes completes a token. -/
theorem step_delimiter (hc : c ≠ '\\') (hd : isDelimiter c = true) :
    step isDelimiter trimmed ⟨done, current, .at false, false⟩ c =
      some ⟨done ++ [finish trimmed current], [], .at false, false⟩ := by
  simp [step, hc, hd, Expectation.at]

/-- Any other character is added to the token, and a quote leads inside or outside. -/
theorem step_char (hc : c ≠ '\\') (hd : (!inside && isDelimiter c) = false) :
    step isDelimiter trimmed ⟨done, current, .at inside, false⟩ c =
      some ⟨done, current ++ [c], .at (inside != (c == '"')), false⟩ := by
  cases inside with
  | false =>
    have hd : isDelimiter c = false := hd
    by_cases hquote : c = '"'
    · subst hquote
      simp [step, hd, Expectation.at]
    · simp [step, hc, hd, hquote, Expectation.at]
  | true => by_cases hquote : c = '"' <;> simp [step, hc, hquote, Expectation.at]

end ListPass

/-- The tokens of a list whose parts these are: an empty part at the end is left out. -/
def dropEmptyLast (parts : List (List Char)) : List (List Char) :=
  if parts.getLast? = some [] then parts.dropLast else parts

/-- Only the last part can be dropped. -/
theorem dropEmptyLast_cons_cons (part next : List Char) (others : List (List Char)) :
    dropEmptyLast (part :: next :: others) = part :: dropEmptyLast (next :: others) := by
  unfold dropEmptyLast
  rw [List.getLast?_cons_cons, List.dropLast_cons_cons]
  split <;> rfl

/-- The tokens of a text are its parts without an empty one at the end. -/
theorem tokens_eq_dropEmptyLast (s : List Char) : tokens isDelimiter s =
    dropEmptyLast ((splitTokens isDelimiter false s).1 :: (splitTokens isDelimiter false s).2) :=
  rfl

/-- A pass gives the strings that are done, and the current one unless it is empty. -/
theorem ListPass.result_eq (done : List String) (current : List Char) (expected : Expectation)
    (escaped : Bool) : (⟨done, current, expected, escaped⟩ : ListPass).result trimmed =
      done ++ (dropEmptyLast [current]).map (finish trimmed) := by
  cases current <;> simp [result, dropEmptyLast]

/-- A pass meets nothing that it does not expect, and it adds the tokens of the text to those that
it has. The first of them continues the token at which the pass stands. -/
theorem ListPass.foldlM_step (inside : Bool) (s : List Char) (done : List String)
    (current : List Char) :
    ∃ p, s.foldlM (step isDelimiter trimmed) ⟨done, current, .at inside, false⟩ = some p ∧
      p.result trimmed = done ++ (dropEmptyLast
        ((current ++ (splitTokens isDelimiter inside s).1) ::
          (splitTokens isDelimiter inside s).2)).map (finish trimmed) := by
  -- When the pass comes to the rest of a text, it has some tokens and a part of the next one, so
  -- the statement is about any of them.
  fun_induction splitTokens isDelimiter inside s generalizing done current with
  | case1 inside => exact ⟨_, rfl, by rw [result_eq, List.append_nil]⟩
  | case2 inside => exact ⟨_, rfl, by rw [result_eq, List.append_nil]⟩
  | case3 inside c s ih =>
    obtain ⟨p, hrun, hp⟩ := ih done (current ++ [c])
    refine ⟨p, ?_, by simpa using hp⟩
    rw [foldlM_step_escape]
    exact hrun
  | case4 inside c s hend hescape hdelimiter token tokens hsplit ih =>
    have hc : c ≠ '\\' := ne_backslash hend hescape
    -- A delimiter cuts outside of quotes only, and the next token starts there.
    obtain ⟨hinside, hd⟩ := Bool.and_eq_true_iff.mp hdelimiter
    obtain rfl : inside = false := by simpa using hinside
    obtain ⟨p, hrun, hp⟩ := ih (done ++ [finish trimmed current]) []
    refine ⟨p, ?_, ?_⟩
    · rw [List.foldlM_cons, step_delimiter hc hd]
      exact hrun
    · rw [hp, hsplit, List.append_nil, dropEmptyLast_cons_cons, List.map_cons, List.append_assoc]
      rfl
  | case5 inside c s hend hescape hdelimiter ih =>
    have hc : c ≠ '\\' := ne_backslash hend hescape
    obtain ⟨p, hrun, hp⟩ := ih done (current ++ [c])
    refine ⟨p, ?_, by simpa using hp⟩
    rw [List.foldlM_cons, step_char hc (Bool.not_eq_true _ ▸ hdelimiter)]
    exact hrun

/-- Every text can be read as a list, and its tokens are those of `delimited`. -/
theorem readDelimited_eq (text delimiters : String) (trimmed : Bool) :
    readDelimited text delimiters trimmed = .ok (delimited text delimiters trimmed) := by
  obtain ⟨p, hrun, hp⟩ :=
    @ListPass.foldlM_step delimiters.toList.contains trimmed false text.toList [] []
  unfold readDelimited
  rw [ListPass.start, hrun, delimited, tokens_eq_dropEmptyLast]
  exact congrArg Except.ok hp

/-! ### Written lists -/

/-- The characters of a string with a backslash before each of them that has a meaning. -/
def escapedChars (isDelimiter : Char → Bool) (s : List Char) : List Char :=
  s.flatMap fun c => if c = '\\' ∨ c = '"' ∨ isDelimiter c then ['\\', c] else [c]

/-- A string with a backslash before each character that has a meaning in a list. -/
def escaped (delimiters s : String) : String :=
  String.ofList (escapedChars delimiters.toList.contains s.toList)

/-- A backslash before each character with a meaning makes all of them literal. -/
theorem spells_escapedChars (s : List Char) :
    Spells isDelimiter (escapedChars isDelimiter s) s := by
  induction s with
  | nil => exact fun t => rfl
  | cons c s ih =>
    intro t
    rw [escapedChars, List.flatMap_cons, List.append_assoc, ← escapedChars]
    split
    next hc =>
      -- The backslash is dropped, whatever it stands in front of.
      change (splitTokens isDelimiter false (escapedChars isDelimiter s ++ t)).map (c :: ·) id = _
      rw [ih t]
      rfl
    next hc =>
      obtain ⟨hbackslash, hquote, hd⟩ : c ≠ '\\' ∧ c ≠ '"' ∧ isDelimiter c = false := by
        simpa using hc
      rw [List.singleton_append, splitTokens_of_ne_quote hbackslash hquote hd, ih t]
      rfl

/-- Up to the closing quote, everything but a backslash is literal. -/
theorem splitTokens_inside (h : ∀ c ∈ s, c ≠ '"' ∧ c ≠ '\\') (t : List Char) :
    splitTokens isDelimiter true (s ++ '"' :: t) =
      (splitTokens isDelimiter false t).map (s ++ ['"'] ++ ·) id := by
  induction s with
  | nil => exact splitTokens_of_char (by decide) rfl t
  | cons c s ih =>
    obtain ⟨⟨hquote, hc⟩, hs⟩ := List.forall_mem_cons.mp h
    rw [List.cons_append, splitTokens_of_char hc rfl, beq_eq_false_iff_ne.mpr hquote]
    exact congrArg (Prod.map (c :: ·) id) (ih hs)

/-- A quoted text keeps its quotes and stands for itself. -/
theorem spells_quoted (hquote : isDelimiter '"' = false) (h : ∀ c ∈ s, c ≠ '"' ∧ c ≠ '\\') :
    Spells isDelimiter ('"' :: (s ++ ['"'])) ('"' :: (s ++ ['"'])) := by
  intro t
  rw [List.cons_append, List.append_assoc, List.singleton_append,
    splitTokens_of_char (by decide) (by rw [hquote]; rfl)]
  exact congrArg (Prod.map ('"' :: ·) id) (splitTokens_inside h t)

/-- The ways to write a string as an element of a list. -/
inductive Writes (delimiters : String) : String → String → Prop
  /-- Any string, with a backslash before each character that has a meaning. -/
  | escaped (s : String) : Writes delimiters (escaped delimiters s) s
  /-- A text between double quotes as it is, if it has neither a quote nor a backslash inside. -/
  | quoted (s : String) (h : ∀ c ∈ s.toList, c ≠ '"' ∧ c ≠ '\\') :
    Writes delimiters ("\"" ++ s ++ "\"") ("\"" ++ s ++ "\"")

/-- What is written for a string spells it, unless quotes are delimiters. -/
theorem Writes.spells {delimiters raw token : String} (h : Writes delimiters raw token)
    (hquote : '"' ∉ delimiters.toList) :
    Spells delimiters.toList.contains raw.toList token.toList := by
  cases h with
  | escaped =>
    rw [Text.escaped, String.toList_ofList]
    exact spells_escapedChars token.toList
  | quoted s h =>
    rw [String.toList_append, String.toList_append]
    exact spells_quoted (by simpa using hquote) h

/-- The strings of a written list are read back. -/
theorem delimited_intercalate {delimiters : String} {raws ts : List String}
    (hbackslash : '\\' ∉ delimiters.toList) (hquote : '"' ∉ delimiters.toList)
    (hd : d ∈ delimiters.toList) (h : List.Forall₂ (Writes delimiters) raws ts)
    (hlast : ts.getLast? ≠ some "") :
    delimited ((String.singleton d).intercalate raws) delimiters false = ts := by
  have hspells : List.Forall₂ (Spells delimiters.toList.contains) (raws.map String.toList)
      (ts.map String.toList) :=
    List.forall₂_map_left_iff.mpr (List.forall₂_map_right_iff.mpr
      (h.imp fun _ _ hwrites => hwrites.spells hquote))
  -- An empty token at the end would not be found.
  have hnonempty : (ts.map String.toList).getLast? ≠ some [] := by
    rw [List.getLast?_map]
    intro hempty
    obtain ⟨t, ht, hnil⟩ := Option.map_eq_some_iff.mp hempty
    exact hlast (ht.trans (congrArg some (String.toList_eq_nil_iff.mp hnil)))
  have htokens : tokens delimiters.toList.contains
      ((String.singleton d).intercalate raws).toList = ts.map String.toList := by
    rw [String.toList_intercalate, String.toList_singleton]
    exact tokens_intercalate (fun h => hbackslash (h ▸ hd)) (by simpa using hd) hspells hnonempty
  rw [delimited, htokens, List.map_map]
  exact (List.map_congr_left fun t _ => String.ofList_toList).trans (List.map_id ts)

/-- A delimited list can always be read, and it decodes its escaping: any strings, the last of them
not empty, are read back from the list in which each is written with backslashes, also if some that
stand between quotes are written as they are. -/
theorem delimited_decodes :
    (∀ value delimiters trimmed,
      readDelimited value delimiters trimmed = .ok (delimited value delimiters trimmed)) ∧
    ∀ (delimiters : String) (d : Char), '\\' ∉ delimiters.toList → '"' ∉ delimiters.toList →
      d ∈ delimiters.toList →
      (∀ ts : List String, ts.getLast? ≠ some "" →
        readDelimited ((String.singleton d).intercalate (ts.map (escaped delimiters))) delimiters
          false = .ok ts) ∧
      ∀ raws ts : List String, List.Forall₂ (Writes delimiters) raws ts → ts.getLast? ≠ some "" →
        readDelimited ((String.singleton d).intercalate raws) delimiters false = .ok ts := by
  refine ⟨readDelimited_eq, fun delimiters d hbackslash hquote hd => ?_⟩
  have hmixed (raws ts : List String) (h : List.Forall₂ (Writes delimiters) raws ts)
      (hlast : ts.getLast? ≠ some "") :
      readDelimited ((String.singleton d).intercalate raws) delimiters false = .ok ts := by
    rw [readDelimited_eq, delimited_intercalate hbackslash hquote hd h hlast]
  refine ⟨fun ts hlast => hmixed _ ts ?_ hlast, hmixed⟩
  exact List.forall₂_map_left_iff.mpr (List.forall₂_same.mpr fun t _ => .escaped t)

/-- A comma in a string, an empty string and a comma between quotes, all in one list. -/
theorem readDelimited_intercalate_mixed :
    readDelimited "a\\,b,,\"x,y\"" "," false = .ok ["a,b", "", "\"x,y\""] := by
  have hwrites : List.Forall₂ (Writes ",") ["a\\,b", "", "\"x,y\""] ["a,b", "", "\"x,y\""] :=
    .cons (.escaped "a,b") (.cons (.escaped "") (.cons (.quoted "x,y" (by simp)) .nil))
  exact (delimited_decodes.2 "," ',' (by decide) (by decide) (by decide)).2 _ _ hwrites (by decide)

end BundleWiring.Text
