import BundleWiring.Header
import BundleWiring.Proofs.Readings
import BundleWiring.Proofs.Text.Positions
import Mathlib.Data.List.ModifyLast

/-!
# One Pass over a Header

A header can be read in one pass, by a loop that knows what it is reading, where it started to read
it and where it is. An iteration looks at one character, or at the end of the text, and moves on by
one character at most; what was read is cut out of the text between the two positions. The loop
itself does not check that these are in order and in the text, that there is a clause to which a
parameter can be added, or that it gets anywhere. This module proves:

- `stripAt?_eq_some`: quotes around a value can be cut off by byte positions;
- `follows_of_step`: what every iteration does to the positions, the clauses and the two flags;
- `inBounds_of_after`: the positions are in order and in the text in every iteration;
- `exists_fault_of_step`: an iteration stops only because the text is no header;
- `pos_lt_of_after`: of three iterations one moves on;
- `lt_of_after`: a loop makes three iterations for each character at most, and three at the end;
- `loop_eq_iff`: the loop ends with what its last iteration leaves;
- `iterate_eq_ends_ok_iff`: a pass ends well only at the end of the text, behind a path or a value.
-/

namespace BundleWiring.Header

open Text

/-- What a pass over a header reads. -/
inductive Phase where
  /-- A clause, of which nothing was read yet. -/
  | clause
  /-- A parameter, of which nothing was read yet. -/
  | parameter
  /-- A key or a path. -/
  | key
  /-- The type of an attribute, or nothing if the parameter is a directive. -/
  | type
  /-- The blanks before a value. -/
  | argument
  /-- A value. -/
  | value
  deriving DecidableEq

/-- The most iterations that a pass makes before it moves on, from a phase on. -/
def Phase.rank : Phase → Nat
  | .clause => 3
  | .parameter | .argument => 2
  | .key | .type | .value => 1

/-- What a value is the value of. -/
inductive Target where
  /-- An attribute. -/
  | attributes
  /-- A directive. -/
  | directives
  deriving DecidableEq

/-- The parameter that a value makes, without the type. -/
def Target.parameter (key value : String) : Target → Parameter
  | .attributes => .attribute key none value
  | .directives => .directive key value

/-- Why a pass stops before the text ends. -/
inductive Halt where
  /-- The text is no header. -/
  | fault (fault : Fault)
  /-- There is no clause to which a value can be added. -/
  | outsideClause
  /-- A part of a text is asked for that the text does not have. -/
  | outOfBounds

/-- The part of a text between two positions, which have to be in order and in the text. -/
def part (s : List Char) (start stop : Nat) : Except Halt (List Char) :=
  if start ≤ stop ∧ stop ≤ s.length then .ok ((s.drop start).take (stop - start))
  else .error .outOfBounds

/-- A value without the quotes around it, cut by byte positions. There is no answer if the value is
cut elsewhere than at a boundary of a character. -/
def stripAt? (value : String) : Option String :=
  if 2 ≤ value.utf8ByteSize ∧ value.toList.head? = some '"' ∧ value.toList.getLast? = some '"' then
    slice? value 1 (value.utf8ByteSize - 1)
  else some value

/-! ### Parts of texts -/

/-- The part between two positions that are in order and in the text. -/
theorem part_eq_ok {s : List Char} {start stop : Nat} (h : start ≤ stop) (h' : stop ≤ s.length) :
    part s start stop = .ok ((s.drop start).take (stop - start)) :=
  if_pos ⟨h, h'⟩

/-- Two quotes around a text are two bytes more. -/
theorem byteSize_quoted (inside : List Char) :
    byteSize ('"' :: (inside ++ ['"'])) = byteSize inside + 2 := by
  have hquote : byteSize ['"'] = 1 := rfl
  rw [← List.singleton_append, byteSize_append, byteSize_append, hquote]
  omega

/-- Between two quotes there is a part of the value, because a quote is one byte long. -/
theorem slice?_quoted (inside : List Char) :
    slice? (String.ofList ('"' :: (inside ++ ['"']))) 1
      ((String.ofList ('"' :: (inside ++ ['"']))).utf8ByteSize - 1) =
        some (String.ofList inside) := by
  have hstop : (String.ofList ('"' :: (inside ++ ['"']))).utf8ByteSize - 1 =
      byteSize ['"'] + byteSize inside := by
    rw [← byteSize, byteSize_quoted, Nat.add_comm (byteSize ['"'])]
    rfl
  rw [hstop]
  exact slice?_ofList ['"'] inside ['"']

/-- A text that does not start with a quote is not changed. -/
theorem stripQuotes_of_ne {c : Char} (hc : c ≠ '"') (s : List Char) :
    stripQuotes (c :: s) = c :: s := by
  unfold stripQuotes
  split
  next h => exact absurd (List.cons.inj h).1 hc
  next => rfl

/-- Quotes around a value can be cut off by byte positions. -/
theorem stripAt?_eq_some (value : String) :
    stripAt? value = some (String.ofList (stripQuotes value.toList)) := by
  obtain ⟨v, rfl⟩ : ∃ v, value = String.ofList v := ⟨value.toList, String.ofList_toList.symm⟩
  rw [stripAt?, String.toList_ofList]
  cases v with
  | nil => rfl
  | cons c v =>
    by_cases hc : c = '"'
    · subst hc
      rcases List.eq_nil_or_concat' v with rfl | ⟨inside, d, rfl⟩
      -- A quote alone is one byte long, so there is nothing between two quotes.
      · exact if_neg fun h => absurd h.1 (by decide)
      rw [stripQuotes, List.getLast?_concat, List.dropLast_concat, ← List.cons_append,
        List.getLast?_concat]
      by_cases hd : d = '"'
      · subst hd
        have hsize : 2 ≤ (String.ofList ('"' :: (inside ++ ['"']))).utf8ByteSize := by
          rw [← byteSize, byteSize_quoted]
          exact Nat.le_add_left ..
        rw [if_pos rfl, List.cons_append, if_pos ⟨hsize, rfl, rfl⟩]
        exact slice?_quoted inside
      · have hlast : some d ≠ some '"' := fun h => hd (Option.some.inj h)
        rw [if_neg hlast, if_neg fun h => hlast h.2.2]
    · rw [stripQuotes_of_ne hc]
      exact if_neg fun h => hc (Option.some.inj h.2.1)

/-! ### The loop -/

/-- The state of a pass over a header. -/
structure Pass where
  /-- The clauses so far. -/
  clauses : List HeaderClause
  /-- What is being read. -/
  phase : Phase
  /-- What the next value is the value of. -/
  target : Target
  /-- The key of the next value. -/
  key : String
  /-- The position of the next character. -/
  pos : Nat
  /-- The position of the first character that belongs to what is being read. -/
  start : Nat
  /-- A quote is open. -/
  quoted : Bool
  /-- A backslash came last. -/
  escaped : Bool

namespace Pass

/-- The state before the first iteration. -/
def initial : Pass where
  clauses := []
  phase := .clause
  target := .attributes
  key := ""
  pos := 0
  start := 0
  quoted := false
  escaped := false

/-- What was read since the start, without the blanks at its ends. -/
def trimmed (s : List Char) (p : Pass) : Except Halt String :=
  (String.ofList ∘ trim) <$> part s p.start p.pos

/-- The state behind the key of a value. -/
def takeKey (s : List Char) (p : Pass) (next : Phase) : Except Halt Pass :=
  p.trimmed s >>= fun key =>
    if key.isEmpty then .error (.fault .missingKey)
    else
      .ok { p with
        phase := next, target := .attributes, key, pos := p.pos + 1, start := p.pos + 1 }

/-- The state behind a path, which is added to the last clause. -/
def takePath (s : List Char) (p : Pass) (next : Phase) : Except Halt Pass :=
  p.trimmed s >>= fun path =>
    .ok { p with
      clauses := p.clauses.modifyLast fun c => { c with paths := c.paths ++ [path] }
      phase := next, pos := p.pos + 1 }

/-- The state behind the type of an attribute, which is added to the last clause. -/
def takeType (s : List Char) (p : Pass) : Except Halt Pass :=
  p.trimmed s >>= fun type =>
    .ok { p with
      clauses := p.clauses.modifyLast fun c => { c with types := c.types.insert p.key type }
      phase := .argument, pos := p.pos + 1, start := p.pos + 1 }

/-- The state behind a value, which is added to the last clause. -/
def takeValue (s : List Char) (p : Pass) (next : Phase) : Except Halt Pass :=
  p.trimmed s >>= fun value =>
    if value.isEmpty then .error (.fault (.missingValue p.key))
    else
      (stripAt? value).elim (.error .outOfBounds) fun value =>
        p.clauses.getLast?.elim (.error .outsideClause) fun c =>
          (addParameter c (p.target.parameter p.key value)).mapError .fault >>= fun c =>
            .ok { p with clauses := p.clauses.dropLast ++ [c], phase := next, pos := p.pos + 1 }

/-- The state after one more character of a key or a path, or after the end of the text. -/
def readKey (s : List Char) (p : Pass) : Except Halt Pass :=
  match s[p.pos]? with
  | some ':' => p.takeKey s .type
  | some '=' => p.takeKey s .argument
  | some ',' => p.takePath s .clause
  | none | some ';' => p.takePath s .parameter
  | some _ => .ok { p with pos := p.pos + 1 }

/-- The state after one more character of a type, or after the end of the text. -/
def readType (s : List Char) (p : Pass) : Except Halt Pass :=
  if s[p.pos]? = some '=' then
    if p.start = p.pos then
      .ok { p with
        phase := .argument, target := .directives, pos := p.pos + 1, start := p.pos + 1 }
    else p.takeType s
  else .ok { p with pos := p.pos + 1 }

/-- The state after one more blank before a value, or where the value starts. A quote there is
skipped, the first character of any other value is not. -/
def readArgument (s : List Char) (p : Pass) : Pass :=
  let quoted := s[p.pos]? == some '"'
  let blank := s[p.pos]?.any isBlank
  { p with
    phase := if blank then .argument else .value
    pos := p.pos + quoted.toNat + blank.toNat
    quoted }

/-- The state after one more character of a value, or after the end of the text. -/
def readValue (s : List Char) (p : Pass) : Except Halt Pass :=
  if p.escaped then .ok { p with pos := p.pos + 1, escaped := false }
  else if s[p.pos]? = some '\\' then .ok { p with pos := p.pos + 1, escaped := true }
  else if p.quoted ∧ s[p.pos]? = some '"' then .ok { p with pos := p.pos + 1, quoted := false }
  else if !p.quoted ∧ s[p.pos]? = some ';' then p.takeValue s .parameter
  else if !p.quoted ∧ (s[p.pos]? = none ∨ s[p.pos]? = some ',') then p.takeValue s .clause
  else .ok { p with pos := p.pos + 1 }

/-- The state after one iteration. -/
def step (s : List Char) (p : Pass) : Except Halt Pass :=
  match p.phase with
  | .clause => .ok { p with clauses := p.clauses ++ [.empty], phase := .parameter }
  | .parameter => .ok { p with phase := .key, start := p.pos }
  | .key => p.readKey s
  | .type => p.readType s
  | .argument => .ok (p.readArgument s)
  | .value => p.readValue s

/-- Whether an iteration has looked for a character and found the end of the text. -/
def sawEnd (s : List Char) (p : Pass) : Bool :=
  p.phase != .clause && p.phase != .parameter && s[p.pos]?.isNone

/-- The clauses when the text is at its end, if it does not end inside of a parameter. -/
def result (p : Pass) : Except Halt (List HeaderClause) :=
  match p.phase with
  | .clause | .parameter => .ok p.clauses
  | .value => .error (.fault (if p.quoted then .unterminatedQuote else .unexpectedEnd))
  | .key | .type | .argument => .error (.fault .unexpectedEnd)

/-- What an iteration leaves. -/
inductive Outcome where
  /-- The state of the next iteration. -/
  | goesOn (p : Pass)
  /-- The result, after the last iteration. -/
  | ends (result : Except Halt (List HeaderClause))

/-- One iteration of the loop. -/
def iterate (s : List Char) (p : Pass) : Outcome :=
  match p.step s with
  | .error halt => .ends (.error halt)
  | .ok p' => if p.sawEnd s then .ends p'.result else .goesOn p'

/-- The state after some iterations, if there are so many. -/
def after (s : List Char) : Nat → Option Pass
  | 0 => some initial
  | n + 1 =>
    (after s n).bind fun p =>
      match p.iterate s with
      | .goesOn p' => some p'
      | .ends _ => none

/-- A bound for the iterations that are left. -/
def remaining (s : List Char) (p : Pass) : Nat :=
  3 * (s.length - p.pos) + p.phase.rank

variable {s : List Char} {p p' : Pass}

/-- The loop goes on exactly if the iteration succeeds and has not seen the end of the text. -/
theorem iterate_eq_goesOn_iff :
    p.iterate s = .goesOn p' ↔ p.step s = .ok p' ∧ p.sawEnd s = false := by
  unfold iterate
  cases p.step s with
  | error halt => simp
  | ok q => cases p.sawEnd s <;> simp

/-- The loop ends if the iteration stops, with its reason, or if it has seen the end of the text,
with the clauses that it leaves. -/
theorem iterate_eq_ends_iff {r : Except Halt (List HeaderClause)} :
    p.iterate s = .ends r ↔ (∃ halt, p.step s = .error halt ∧ .error halt = r) ∨
      ∃ p', p.step s = .ok p' ∧ p.sawEnd s = true ∧ p'.result = r := by
  unfold iterate
  cases p.step s with
  | error halt => simp
  | ok q => cases p.sawEnd s <;> simp

/-- The end of the text is seen in a phase that looks for a character and finds none. -/
theorem sawEnd_eq_true_iff : p.sawEnd s = true ↔
    (p.phase ≠ .clause ∧ p.phase ≠ .parameter) ∧ s[p.pos]? = none := by
  simp [sawEnd]

/-- The state after one more iteration is what the last one leaves, if the loop goes on. -/
theorem after_succ_eq_some_iff {n : Nat} :
    after s (n + 1) = some p' ↔ ∃ p, after s n = some p ∧ p.iterate s = .goesOn p' := by
  rw [after, Option.bind_eq_some_iff]
  refine exists_congr fun p => and_congr_right fun _ => ?_
  cases p.iterate s <;> simp

/-! ### What an iteration does -/

/-- No quote is open and no backslash came last, except in a value. -/
def Closed (p : Pass) : Prop :=
  p.phase = .value ∨ p.quoted = false ∧ p.escaped = false

/-- What every iteration does to the positions, the clauses and the two flags. -/
structure Follows (p p' : Pass) : Prop where
  /-- It moves on by a character, or comes nearer to moving on. -/
  pos_eq : p'.pos = p.pos ∧ p'.phase.rank < p.phase.rank ∨
    p'.pos = p.pos + 1 ∧ p.phase ≠ .clause ∧ p.phase ≠ .parameter
  /-- It starts to read only at the position where it is. -/
  start_eq : p'.start = p.start ∨ p'.start = p'.pos
  /-- It removes no clause, and adds one if there has to be one. -/
  clauses_ne_nil : p.phase = .clause ∨ p.clauses ≠ [] → p'.clauses ≠ []
  /-- It leaves no value without closing it. -/
  closed : p.Closed → p'.Closed

theorem modifyLast_ne_nil {f : HeaderClause → HeaderClause} {cs : List HeaderClause}
    (h : cs ≠ []) : cs.modifyLast f ≠ [] := by
  rw [← List.dropLast_concat_getLast h, List.modifyLast_concat]
  exact List.append_ne_nil_of_right_ne_nil _ (List.cons_ne_nil _ _)

/-- Outside of values the flags only have to stay as they are. -/
theorem Closed.of_eq (h : p.Closed) (hphase : p.phase ≠ .value) (hquoted : p'.quoted = p.quoted)
    (hescaped : p'.escaped = p.escaped) : p'.Closed := by
  refine .inr ?_
  rw [hquoted, hescaped]
  exact h.resolve_left hphase

/-- A path changes the last clause, the phase and the position only. -/
theorem takePath_eq_ok {next : Phase} (h : p.takePath s next = .ok p') : ∃ path, p' = { p with
    clauses := p.clauses.modifyLast fun c => { c with paths := c.paths ++ [path] }
    phase := next, pos := p.pos + 1 } := by
  obtain ⟨path, -, h⟩ := bind_eq_ok_iff.mp h
  exact ⟨path, (Except.ok.inj h).symm⟩

/-- A value changes the last clause, the phase and the position only. -/
theorem takeValue_eq_ok {next : Phase} (h : p.takeValue s next = .ok p') : ∃ c, p' = { p with
    clauses := p.clauses.dropLast ++ [c], phase := next, pos := p.pos + 1 } := by
  obtain ⟨value, -, h⟩ := bind_eq_ok_iff.mp h
  split at h
  · cases h
  rw [stripAt?_eq_some, Option.elim_some] at h
  cases hlast : p.clauses.getLast? with
  | none =>
    rw [hlast] at h
    cases h
  | some last =>
    rw [hlast] at h
    obtain ⟨c, -, h⟩ := bind_eq_ok_iff.mp h
    exact ⟨c, (Except.ok.inj h).symm⟩

/-- At a character of a key, the key or the path is taken, or the character is passed over. -/
theorem readKey_cases (s : List Char) (p : Pass) :
    (∃ next, p.readKey s = p.takeKey s next) ∨ (∃ next, p.readKey s = p.takePath s next) ∨
      p.readKey s = .ok { p with pos := p.pos + 1 } := by
  unfold readKey
  split
  · exact .inl ⟨.type, rfl⟩
  · exact .inl ⟨.argument, rfl⟩
  · exact .inr (.inl ⟨.clause, rfl⟩)
  · exact .inr (.inl ⟨.parameter, rfl⟩)
  · exact .inr (.inl ⟨.parameter, rfl⟩)
  · exact .inr (.inr rfl)

/-- At a character of a type, the type is taken, or there is none, or the character is passed
over. -/
theorem readType_cases (s : List Char) (p : Pass) :
    p.readType s = p.takeType s ∨
      p.readType s = .ok { p with
        phase := .argument, target := .directives, pos := p.pos + 1, start := p.pos + 1 } ∨
      p.readType s = .ok { p with pos := p.pos + 1 } := by
  unfold readType
  split
  · split
    · exact .inr (.inl rfl)
    · exact .inl rfl
  · exact .inr (.inr rfl)

/-- At a character of a value, the value is taken, which needs both flags to be clear, or the
character is passed over. -/
theorem readValue_cases (s : List Char) (p : Pass) :
    (∃ next, p.quoted = false ∧ p.escaped = false ∧ p.readValue s = p.takeValue s next) ∨
      ∃ quoted escaped, p.readValue s = .ok { p with pos := p.pos + 1, quoted, escaped } := by
  unfold readValue
  split
  · exact .inr ⟨p.quoted, false, rfl⟩
  next hescaped =>
    have hescaped : p.escaped = false := Bool.eq_false_iff.mpr hescaped
    split
    · exact .inr ⟨p.quoted, true, rfl⟩
    split
    · exact .inr ⟨false, p.escaped, rfl⟩
    split
    next hstop => exact .inl ⟨.parameter, by simpa using hstop.1, hescaped, rfl⟩
    split
    next hstop => exact .inl ⟨.clause, by simpa using hstop.1, hescaped, rfl⟩
    exact .inr ⟨p.quoted, p.escaped, rfl⟩

/-- A character that stands for itself is only passed over. -/
theorem follows_advance (hphase : p.phase ≠ .clause ∧ p.phase ≠ .parameter) :
    Follows p { p with pos := p.pos + 1 } where
  pos_eq := .inr ⟨rfl, hphase⟩
  start_eq := .inl rfl
  clauses_ne_nil h := h.resolve_left hphase.1
  closed h := h

/-- A key that is taken moves the pass on. -/
theorem follows_takeKey {next : Phase} (hphase : p.phase = .key)
    (h : p.takeKey s next = .ok p') : Follows p p' := by
  obtain ⟨key, -, h⟩ := bind_eq_ok_iff.mp h
  split at h
  · cases h
  obtain rfl := Except.ok.inj h
  exact ⟨.inr ⟨rfl, by simp [hphase]⟩, .inr rfl, fun h => h.resolve_left (by simp [hphase]),
    fun h => h.of_eq (by simp [hphase]) rfl rfl⟩

/-- A path that is taken moves the pass on. -/
theorem follows_takePath {next : Phase} (hphase : p.phase = .key)
    (h : p.takePath s next = .ok p') : Follows p p' := by
  obtain ⟨path, rfl⟩ := takePath_eq_ok h
  exact ⟨.inr ⟨rfl, by simp [hphase]⟩, .inl rfl,
    fun h => modifyLast_ne_nil (h.resolve_left (by simp [hphase])),
    fun h => h.of_eq (by simp [hphase]) rfl rfl⟩

/-- A type that is taken moves the pass on. -/
theorem follows_takeType (hphase : p.phase = .type) (h : p.takeType s = .ok p') :
    Follows p p' := by
  obtain ⟨type, -, h⟩ := bind_eq_ok_iff.mp h
  obtain rfl := Except.ok.inj h
  exact ⟨.inr ⟨rfl, by simp [hphase]⟩, .inr rfl,
    fun h => modifyLast_ne_nil (h.resolve_left (by simp [hphase])),
    fun h => h.of_eq (by simp [hphase]) rfl rfl⟩

/-- A value that is taken moves the pass on. -/
theorem follows_takeValue {next : Phase} (hphase : p.phase = .value) (hquoted : p.quoted = false)
    (hescaped : p.escaped = false) (h : p.takeValue s next = .ok p') : Follows p p' := by
  obtain ⟨c, rfl⟩ := takeValue_eq_ok h
  refine ⟨.inr ⟨rfl, by simp [hphase]⟩, .inl rfl, fun _ => ?_, fun _ => .inr ⟨hquoted, hescaped⟩⟩
  exact List.append_ne_nil_of_right_ne_nil _ (List.cons_ne_nil _ _)

/-- One more character of a key moves the pass on. -/
theorem follows_readKey (hphase : p.phase = .key) (h : p.readKey s = .ok p') : Follows p p' := by
  rcases readKey_cases s p with ⟨next, heq⟩ | ⟨next, heq⟩ | heq <;> rw [heq] at h
  · exact follows_takeKey hphase h
  · exact follows_takePath hphase h
  · obtain rfl := Except.ok.inj h
    exact follows_advance (by simp [hphase])

/-- One more character of a type moves the pass on. -/
theorem follows_readType (hphase : p.phase = .type) (h : p.readType s = .ok p') :
    Follows p p' := by
  rcases readType_cases s p with heq | heq | heq <;> rw [heq] at h
  · exact follows_takeType hphase h
  · obtain rfl := Except.ok.inj h
    exact ⟨.inr ⟨rfl, by simp [hphase]⟩, .inr rfl, fun h => h.resolve_left (by simp [hphase]),
      fun h => h.of_eq (by simp [hphase]) rfl rfl⟩
  · obtain rfl := Except.ok.inj h
    exact follows_advance (by simp [hphase])

/-- One more blank moves the pass on, and the start of a value leads to the value. -/
theorem follows_readArgument (hphase : p.phase = .argument) : Follows p (p.readArgument s) := by
  -- A quote is not a blank, so it is not skipped twice.
  have hquote : (s[p.pos]? == some '"') = true → s[p.pos]?.any isBlank = false := by
    intro h
    rw [eq_of_beq h]
    decide
  refine ⟨?_, .inl rfl, fun h => h.resolve_left (by simp [hphase]), fun h => ?_⟩
  · cases hq : s[p.pos]? == some '"' with
    | true => simp [readArgument, hq, hquote hq, hphase]
    | false => cases hb : s[p.pos]?.any isBlank <;> simp [readArgument, hq, hb, hphase, Phase.rank]
  · cases hb : s[p.pos]?.any isBlank with
    | false => exact .inl (by simp [readArgument, hb])
    | true =>
      have hq : (s[p.pos]? == some '"') = false := by
        by_contra hq
        rw [hquote (by simpa using hq)] at hb
        cases hb
      exact .inr ⟨hq, (h.resolve_left (by simp [hphase])).2⟩

/-- One more character of a value moves the pass on. -/
theorem follows_readValue (hphase : p.phase = .value) (h : p.readValue s = .ok p') :
    Follows p p' := by
  have hlooks : p.phase ≠ .clause ∧ p.phase ≠ .parameter := by simp [hphase]
  rcases readValue_cases s p with ⟨next, hquoted, hescaped, heq⟩ | ⟨quoted, escaped, heq⟩ <;>
    rw [heq] at h
  · exact follows_takeValue hphase hquoted hescaped h
  · obtain rfl := Except.ok.inj h
    exact { follows_advance hlooks with closed := fun _ => .inl hphase }

/-- What every iteration does to the positions, the clauses and the two flags. -/
theorem follows_of_step (h : p.step s = .ok p') : Follows p p' := by
  unfold step at h
  split at h
  next hphase =>
    obtain rfl := Except.ok.inj h
    refine ⟨.inl ⟨rfl, by simp [hphase, Phase.rank]⟩, .inl rfl, fun _ => ?_,
      fun h => h.of_eq (by simp [hphase]) rfl rfl⟩
    -- A clause is added, so that there is one.
    exact List.append_ne_nil_of_right_ne_nil _ (List.cons_ne_nil _ _)
  next hphase =>
    obtain rfl := Except.ok.inj h
    -- A parameter starts where the pass is.
    exact ⟨.inl ⟨rfl, by simp [hphase, Phase.rank]⟩, .inr rfl,
      fun h => h.resolve_left (by simp [hphase]), fun h => h.of_eq (by simp [hphase]) rfl rfl⟩
  next hphase => exact follows_readKey hphase h
  next hphase => exact follows_readType hphase h
  next hphase =>
    obtain rfl := Except.ok.inj h
    exact follows_readArgument hphase
  next hphase => exact follows_readValue hphase h

/-! ### Positions and clauses in every iteration -/

/-- What holds before every iteration. -/
structure InBounds (s : List Char) (p : Pass) : Prop where
  /-- What is being read starts behind nothing that is still to be read. -/
  start_le : p.start ≤ p.pos
  /-- The position is in the text or at its end. -/
  pos_le : p.pos ≤ s.length
  /-- There is a clause, or one is about to start. -/
  clauses_ne_nil : p.phase = .clause ∨ p.clauses ≠ []
  /-- No quote is open and no backslash came last, except in a value. -/
  closed : p.Closed

/-- The first iteration starts in bounds. -/
theorem inBounds_initial : InBounds s initial :=
  ⟨Nat.le_refl 0, Nat.zero_le _, .inl rfl, .inr ⟨rfl, rfl⟩⟩

/-- An iteration that is not the last one moves on only behind a character. -/
theorem pos_of_iterate (h : p.iterate s = .goesOn p') :
    p'.pos = p.pos ∧ p'.phase.rank < p.phase.rank ∨ p'.pos = p.pos + 1 ∧ p.pos < s.length := by
  obtain ⟨hstep, hend⟩ := iterate_eq_goesOn_iff.mp h
  refine (follows_of_step hstep).pos_eq.imp_right fun ⟨hpos, hclause, hparameter⟩ => ⟨hpos, ?_⟩
  simpa [sawEnd, hclause, hparameter] using hend

/-- What holds before an iteration holds before the next one. -/
theorem InBounds.iterate (hp : InBounds s p) (h : p.iterate s = .goesOn p') : InBounds s p' := by
  obtain ⟨hstep, -⟩ := iterate_eq_goesOn_iff.mp h
  have hfollows := follows_of_step hstep
  have hpos : p.pos ≤ p'.pos ∧ p'.pos ≤ s.length := by
    have hle := hp.pos_le
    rcases pos_of_iterate h with ⟨hpos, -⟩ | ⟨hpos, hlt⟩ <;> omega
  refine ⟨?_, hpos.2, .inr (hfollows.clauses_ne_nil hp.clauses_ne_nil), hfollows.closed hp.closed⟩
  have hstart := hp.start_le
  rcases hfollows.start_eq with hstart' | hstart' <;> omega

/-- The positions are in order and in the text in every iteration. -/
theorem inBounds_of_after {n : Nat} (h : after s n = some p) : InBounds s p := by
  induction n generalizing p with
  | zero =>
    obtain rfl := Option.some.inj h
    exact inBounds_initial
  | succ n ih =>
    obtain ⟨q, hq, hiterate⟩ := after_succ_eq_some_iff.mp h
    exact (ih hq).iterate hiterate

/-! ### No other halt than a fault of the text -/

variable {halt : Halt}

/-- What was read since the start can be cut out of the text. -/
theorem InBounds.trimmed_eq_ok (h : InBounds s p) :
    p.trimmed s = .ok (String.ofList (trim ((s.drop p.start).take (p.pos - p.start)))) := by
  rw [trimmed, part_eq_ok h.start_le h.pos_le]
  rfl

/-- A path can always be taken. -/
theorem InBounds.takePath_ne_error (hp : InBounds s p) (next : Phase) (halt : Halt) :
    p.takePath s next ≠ .error halt := by
  rw [takePath, hp.trimmed_eq_ok]
  intro h
  cases h

/-- A type can always be taken. -/
theorem InBounds.takeType_ne_error (hp : InBounds s p) (halt : Halt) :
    p.takeType s ≠ .error halt := by
  rw [takeType, hp.trimmed_eq_ok]
  intro h
  cases h

/-- What is made of a reading stops only at a fault of the reading. -/
theorem exists_fault_of_mapError {α β : Type} {x : Except Fault α} {f : α → β}
    (h : (x.mapError Halt.fault >>= fun a => .ok (f a)) = .error halt) :
    ∃ fault, halt = .fault fault := by
  cases x with
  | error fault => exact ⟨fault, (Except.error.inj h).symm⟩
  | ok a => cases h

/-- A key is not taken only because the text has a fault. -/
theorem exists_fault_of_takeKey {next : Phase} (hp : InBounds s p)
    (h : p.takeKey s next = .error halt) : ∃ fault, halt = .fault fault := by
  rw [takeKey, hp.trimmed_eq_ok] at h
  simp only [bind, Except.bind] at h
  split at h
  · exact ⟨.missingKey, (Except.error.inj h).symm⟩
  · cases h

/-- A value is not taken only because the text has a fault. -/
theorem exists_fault_of_takeValue {next : Phase} (hp : InBounds s p) (hphase : p.phase = .value)
    (h : p.takeValue s next = .error halt) : ∃ fault, halt = .fault fault := by
  have hne : p.clauses ≠ [] := hp.clauses_ne_nil.resolve_left (by simp [hphase])
  rw [takeValue, hp.trimmed_eq_ok] at h
  simp only [bind, Except.bind, stripAt?_eq_some, List.getLast?_eq_some_getLast hne,
    Option.elim_some] at h
  split at h
  · exact ⟨.missingValue p.key, (Except.error.inj h).symm⟩
  · exact exists_fault_of_mapError h

/-- An iteration stops only because the text is no header. -/
theorem exists_fault_of_step (hp : InBounds s p) (h : p.step s = .error halt) :
    ∃ fault, halt = .fault fault := by
  unfold step at h
  split at h
  -- Where a clause, a parameter or the blanks before a value are read, nothing is taken.
  · cases h
  · cases h
  · rcases readKey_cases s p with ⟨next, heq⟩ | ⟨next, heq⟩ | heq <;> rw [heq] at h
    · exact exists_fault_of_takeKey hp h
    · exact absurd h (hp.takePath_ne_error next halt)
    · cases h
  · rcases readType_cases s p with heq | heq | heq <;> rw [heq] at h
    · exact absurd h (hp.takeType_ne_error halt)
    · cases h
    · cases h
  · cases h
  next hphase =>
    rcases readValue_cases s p with ⟨next, -, -, heq⟩ | ⟨quoted, escaped, heq⟩ <;> rw [heq] at h
    · exact exists_fault_of_takeValue hp hphase h
    · cases h

/-! ### The end of the loop -/

theorem rank_pos (phase : Phase) : 0 < phase.rank := by
  cases phase <;> decide

theorem rank_le (phase : Phase) : phase.rank ≤ 3 := by
  cases phase <;> decide

/-- An iteration after which the loop goes on leaves fewer iterations. -/
theorem remaining_lt_of_iterate (h : p.iterate s = .goesOn p') :
    p'.remaining s < p.remaining s := by
  have hrank := rank_pos p.phase
  have hrank' := rank_le p'.phase
  unfold remaining
  rcases pos_of_iterate h with ⟨hpos, hlt⟩ | ⟨hpos, hlt⟩ <;> omega

/-- Of three iterations one moves on. -/
theorem pos_lt_of_after {n : Nat} (h : after s n = some p) (h' : after s (n + 3) = some p') :
    p.pos < p'.pos := by
  obtain ⟨q', hq', hlast⟩ := after_succ_eq_some_iff.mp h'
  obtain ⟨q, hq, hsecond⟩ := after_succ_eq_some_iff.mp hq'
  obtain ⟨p₀, hp₀, hfirst⟩ := after_succ_eq_some_iff.mp hq
  obtain rfl : p = p₀ := Option.some.inj (h.symm.trans hp₀)
  -- Iterations that do not move on lower the rank, which is never below one.
  have hhigh := rank_le p.phase
  have hlow := rank_pos p'.phase
  have hone := pos_of_iterate hfirst
  have htwo := pos_of_iterate hsecond
  have hthree := pos_of_iterate hlast
  omega

/-- The iterations that were made and those that are left are three for each character and three at
the end, at most. -/
theorem remaining_of_after {n : Nat} (h : after s n = some p) :
    n + p.remaining s ≤ 3 * (s.length + 1) := by
  induction n generalizing p with
  | zero =>
    obtain rfl := Option.some.inj h
    simp [remaining, initial, Phase.rank]
    omega
  | succ n ih =>
    obtain ⟨q, hq, hiterate⟩ := after_succ_eq_some_iff.mp h
    have hlt := remaining_lt_of_iterate hiterate
    have hle := ih hq
    omega

/-- A loop makes three iterations for each character at most, and three at the end. -/
theorem lt_of_after {n : Nat} (h : after s n = some p) : n < 3 * (s.length + 1) := by
  have hle := remaining_of_after h
  have hrank := rank_pos p.phase
  unfold remaining at hle
  omega

/-- An iteration without a fault is the last one only at the end of the text. -/
theorem pos_eq_of_sawEnd (hp : InBounds s p) (h : p.sawEnd s = true) : p.pos = s.length :=
  Nat.le_antisymm hp.pos_le (List.getElem?_eq_none_iff.mp (sawEnd_eq_true_iff.mp h).2)

/-- The loop, from a state on. -/
def loop (s : List Char) (p : Pass) : Except Halt (List HeaderClause) :=
  match _h : p.iterate s with
  | .goesOn p' => loop s p'
  | .ends r => r
termination_by p.remaining s
decreasing_by exact remaining_lt_of_iterate _h

/-- If the loop goes on, it gives what it gives from the next state on. -/
theorem loop_of_goesOn (h : p.iterate s = .goesOn p') : p.loop s = p'.loop s := by
  rw [loop]
  split
  next q hq =>
    obtain rfl : q = p' := Outcome.goesOn.inj (hq.symm.trans h)
    rfl
  next r hr => cases hr.symm.trans h

/-- If the loop ends, it gives what the iteration leaves. -/
theorem loop_of_ends {r : Except Halt (List HeaderClause)} (h : p.iterate s = .ends r) :
    p.loop s = r := by
  rw [loop]
  split
  next q hq => cases hq.symm.trans h
  next r' hr => exact Outcome.ends.inj (hr.symm.trans h)

/-- The loop makes an iteration, and then it goes on or is at its end. -/
theorem loop_eq (s : List Char) (p : Pass) :
    p.loop s = p.step s >>= fun p' => if p.sawEnd s then p'.result else p'.loop s := by
  cases hstep : p.step s with
  | error halt => exact loop_of_ends (iterate_eq_ends_iff.mpr (.inl ⟨halt, hstep, rfl⟩))
  | ok p' =>
    cases hend : p.sawEnd s with
    | false => exact loop_of_goesOn (iterate_eq_goesOn_iff.mpr ⟨hstep, hend⟩)
    | true => exact loop_of_ends (iterate_eq_ends_iff.mpr (.inr ⟨p', hstep, hend, rfl⟩))

/-- The loop gives what it gives from any of its states on. -/
theorem loop_of_after {n : Nat} (h : after s n = some p) : initial.loop s = p.loop s := by
  induction n generalizing p with
  | zero => rw [Option.some.inj h]
  | succ n ih =>
    obtain ⟨q, hq, hiterate⟩ := after_succ_eq_some_iff.mp h
    rw [ih hq, loop_of_goesOn hiterate]

/-- The loop ends in some iteration, with what it gives. -/
theorem exists_ends_of_after {n : Nat} (h : after s n = some p) :
    ∃ m q, after s m = some q ∧ q.iterate s = .ends (p.loop s) := by
  fun_induction loop s p generalizing n with
  | case1 p p' hiterate ih => exact ih (after_succ_eq_some_iff.mpr ⟨p, h, hiterate⟩)
  | case2 p r hiterate => exact ⟨n, p, h, hiterate⟩

/-- The result of the loop is what its last iteration leaves. -/
theorem loop_eq_iff {r : Except Halt (List HeaderClause)} :
    initial.loop s = r ↔ ∃ n p, after s n = some p ∧ p.iterate s = .ends r := by
  constructor
  · rintro rfl
    exact exists_ends_of_after (n := 0) rfl
  · rintro ⟨n, p, hp, hiterate⟩
    rw [loop_of_after hp, loop_of_ends hiterate]

/-- The last iteration of a pass that ends well: it takes a path, or a value in which no quote is
open and no backslash came last. -/
inductive Completes (s : List Char) (p p' : Pass) : Prop where
  /-- The text ends with a path. -/
  | path : p.phase = .key → p.takePath s .parameter = .ok p' → Completes s p p'
  /-- The text ends with a value. -/
  | value : p.phase = .value → p.quoted = false → p.escaped = false →
    p.takeValue s .clause = .ok p' → Completes s p p'

/-- Where a pass ends well, no quote is open and no backslash came last. -/
theorem Completes.closed (h : Completes s p p') (hp : p.Closed) :
    p.quoted = false ∧ p.escaped = false := by
  rcases h with ⟨hphase, -⟩ | ⟨-, hquoted, hescaped, -⟩
  · exact hp.resolve_left (by simp [hphase])
  · exact ⟨hquoted, hescaped⟩

/-- A pass ends well with its clauses exactly if it is not inside of a parameter. -/
theorem result_eq_ok_iff {cs : List HeaderClause} :
    p.result = .ok cs ↔ (p.phase = .clause ∨ p.phase = .parameter) ∧ p.clauses = cs := by
  unfold result
  split <;> simp_all

/-- An iteration at the end of the text completes a pass exactly if it leaves the parameter. -/
theorem completes_iff (hend : p.sawEnd s = true) :
    Completes s p p' ↔ p.step s = .ok p' ∧ (p'.phase = .clause ∨ p'.phase = .parameter) := by
  obtain ⟨⟨hclause, hparameter⟩, hend⟩ := sawEnd_eq_true_iff.mp hend
  constructor
  · rintro (⟨hphase, hpath⟩ | ⟨hphase, hquoted, hescaped, hvalue⟩)
    · refine ⟨by simpa [step, hphase, readKey, hend] using hpath, .inr ?_⟩
      obtain ⟨path, rfl⟩ := takePath_eq_ok hpath
      rfl
    · refine ⟨by simpa [step, hphase, readValue, hend, hquoted, hescaped] using hvalue, .inl ?_⟩
      obtain ⟨c, rfl⟩ := takeValue_eq_ok hvalue
      rfl
  · rintro ⟨hstep, hdone⟩
    unfold step at hstep
    split at hstep
    next hphase => exact absurd hphase hclause
    next hphase => exact absurd hphase hparameter
    next hphase => exact .path hphase (by simpa [readKey, hend] using hstep)
    -- A type, the blanks before a value and a value that is not closed go on.
    next hphase =>
      obtain rfl : _ = p' := by simpa [readType, hend] using hstep
      simp [hphase] at hdone
    next hphase =>
      obtain rfl := Except.ok.inj hstep
      simp [readArgument, hend] at hdone
    next hphase =>
      cases hescaped : p.escaped with
      | true =>
        obtain rfl : _ = p' := by simpa [readValue, hescaped] using hstep
        simp [hphase] at hdone
      | false =>
        cases hquoted : p.quoted with
        | true =>
          obtain rfl : _ = p' := by simpa [readValue, hend, hescaped, hquoted] using hstep
          simp [hphase] at hdone
        | false =>
          exact .value hphase hquoted hescaped
            (by simpa [readValue, hend, hescaped, hquoted] using hstep)

/-- A pass ends well only at the end of the text, right behind a path or a value. -/
theorem iterate_eq_ends_ok_iff (hp : InBounds s p) {cs : List HeaderClause} :
    p.iterate s = .ends (.ok cs) ↔
      p.pos = s.length ∧ ∃ p', Completes s p p' ∧ p'.clauses = cs := by
  rw [iterate_eq_ends_iff]
  constructor
  · rintro (⟨halt, -, h⟩ | ⟨p', hstep, hend, hresult⟩)
    · cases h
    · obtain ⟨hphase, hcs⟩ := result_eq_ok_iff.mp hresult
      exact ⟨pos_eq_of_sawEnd hp hend, p', (completes_iff hend).mpr ⟨hstep, hphase⟩, hcs⟩
  · rintro ⟨hpos, p', hcompletes, hcs⟩
    -- A path and a value are read up to the end of the text, so that the end is seen.
    have hend : p.sawEnd s = true := by
      rw [sawEnd_eq_true_iff, hpos, List.getElem?_length]
      rcases hcompletes with ⟨hphase, -⟩ | ⟨hphase, -⟩ <;> simp [hphase]
    obtain ⟨hstep, hphase⟩ := (completes_iff hend).mp hcompletes
    exact .inr ⟨p', hstep, hend, result_eq_ok_iff.mpr ⟨hphase, hcs⟩⟩

end Pass

end BundleWiring.Header
