import BundleWiring.Filter.Reader
import Mathlib.Data.List.DropRight
import Mathlib.Data.Set.Subsingleton

/-!
# The Grammar of Filters

The grammar of filters as rules without any order, beside the reader, which tries alternatives in
order, reads as many filters as it can and gives up at a parenthesis inside an operand. A body that
starts with `&`, `|`, `!` or `*` may also be an item whose name starts so; what tells them apart is
the first character that ends a name, which is a parenthesis for the operators and the sign of a
comparison for items. This module proves:

- `says_iff`: an operand says what is left of it without its escapes;
- `readItem_eq_ok_iff`: reading a name, a sign and an operand is unambiguous;
- `readBody_eq_ok_iff`: no body is read both as an operator and as an item;
- `Grammar.IsFilter.reads`: every derivable text is read, whatever follows it;
- `exists_isFilter_of_readFilter`: what is read is derivable;
- `parse_eq_ok_iff_derivable`: a text is read as a filter exactly if the grammar derives it, and
  then the grammar derives no other filter.
-/

namespace BundleWiring.Filter

open Text

/-! ### The rules -/

namespace Grammar

/-- The white space between parentheses. -/
def spaces : List Char :=
  [' ', '\t', '\r', '\n']

/-- The characters that do not occur in names. -/
def nameEnds : List Char :=
  ['=', '<', '>', '~', '(', ')']

/-- A run of white space. -/
def IsSpace (w : List Char) : Prop :=
  ∀ c ∈ w, c ∈ spaces

/-- A name and the blanks after it. -/
structure IsName (w : List Char) : Prop where
  /-- No character ends a name. -/
  notMem_nameEnds : ∀ c ∈ w, c ∉ nameEnds
  /-- The first character is not white space. -/
  head_notMem_spaces : ∀ c ∈ w.head?, c ∉ spaces
  /-- More than blanks is there. -/
  trimEnd_ne_nil : trimEnd w ≠ []

/-- A name starts with a character that is not white space. -/
theorem IsName.exists_eq_cons {w : List Char} (h : IsName w) :
    ∃ c t, w = c :: t ∧ c ∉ spaces := by
  cases w with
  | nil => exact absurd rfl h.trimEnd_ne_nil
  | cons c t => exact ⟨c, t, rfl, h.head_notMem_spaces c rfl⟩

/-- An operand: any characters after backslashes, and others than backslashes and parentheses. -/
inductive IsOperand : List Char → Prop where
  | nil : IsOperand []
  /-- A backslash with the character that it escapes. -/
  | escaped (c : Char) {w : List Char} : IsOperand w → IsOperand ('\\' :: c :: w)
  /-- A character that stands for itself. -/
  | plain {c : Char} {w : List Char} :
    c ∉ ['\\', '(', ')'] → IsOperand w → IsOperand (c :: w)

/-- What an operand says where stars have no meaning. -/
inductive Says : List Char → List Char → Prop where
  | nil : Says [] []
  /-- A backslash is left out, and the character that it escapes is said. -/
  | escaped (c : Char) {w s : List Char} : Says w s → Says ('\\' :: c :: w) (c :: s)
  /-- A character that stands for itself is said. -/
  | plain {c : Char} {w s : List Char} :
    c ∉ ['\\', '(', ')'] → Says w s → Says (c :: w) (c :: s)

mutual

/-- A text is a filter in parentheses. -/
inductive IsFilter : List Char → Filter → Prop where
  /-- A body in parentheses, with white space around it and around them. -/
  | parens {before start body after : List Char} {f : Filter} :
    IsSpace before → IsSpace start → IsBody body f → IsSpace after →
      IsFilter (before ++ '(' :: (start ++ (body ++ ')' :: after))) f

/-- A text is what stands between the parentheses of a filter. -/
inductive IsBody : List Char → Filter → Prop where
  | and {w : List Char} {fs : List Filter} : AreFilters w fs → IsBody ('&' :: w) (.and fs)
  | or {w : List Char} {fs : List Filter} : AreFilters w fs → IsBody ('|' :: w) (.or fs)
  | not {w : List Char} {f : Filter} : IsFilter w f → IsBody ('!' :: w) (.not f)
  | all : IsBody ['*'] .all
  /-- An equality, whose operand is a wildcard pattern. -/
  | equality {name operand : List Char} : IsName name → IsOperand operand →
    IsBody (name ++ '=' :: operand)
      (ofPieces (String.ofList (trimEnd name)) (piecesOf (String.ofList operand)))
  /-- A comparison of another kind, with what its operand says. -/
  | comparison {name operand said : List Char} {op : Comparison} : op ≠ .eq →
    IsName name → Says operand said → IsBody (name ++ (op.chars ++ operand))
      (.comparison (String.ofList (trimEnd name)) op (String.ofList said))

/-- A text is one or more filters, one after the other. -/
inductive AreFilters : List Char → List Filter → Prop where
  | one {w : List Char} {f : Filter} : IsFilter w f → AreFilters w [f]
  | more {w w' : List Char} {f : Filter} {fs : List Filter} :
    IsFilter w f → AreFilters w' fs → AreFilters (w ++ w') (f :: fs)

end

end Grammar

/-! ### White space and signs -/

open Grammar

/-- The white space of the reader is that of the grammar. -/
theorem isSpace_eq_true_iff {c : Char} : isSpace c = true ↔ c ∈ spaces := by
  simp [isSpace, spaces, or_assoc]

/-- The characters at which the reader ends a name are those that the grammar keeps out of names. -/
theorem isNameEnd_eq_true_iff {c : Char} : isNameEnd c = true ↔ c ∈ nameEnds := by
  simp [isNameEnd, nameEnds, or_assoc]

/-- White space in front of a text is skipped with the white space that the text starts with. -/
theorem skipSpace_append {w : List Char} (hw : IsSpace w) (s : List Char) :
    skipSpace (w ++ s) = skipSpace s :=
  List.dropWhile_append_of_pos fun c hc => isSpace_eq_true_iff.mpr (hw c hc)

/-- White space does not end a name. -/
theorem notMem_nameEnds_of_mem_spaces : ∀ c ∈ spaces, c ∉ nameEnds := by
  simp [spaces, nameEnds]

/-- Nothing is skipped in front of a character that is not white space. -/
theorem skipSpace_cons {c : Char} (hc : c ∉ spaces) (s : List Char) :
    skipSpace (c :: s) = c :: s :=
  List.dropWhile_cons_of_neg (mt isSpace_eq_true_iff.mp hc)

/-- What is skipped is white space, and the rest is left as it is. -/
theorem exists_isSpace_append (s : List Char) : ∃ w, IsSpace w ∧ s = w ++ skipSpace s := by
  refine ⟨s.takeWhile isSpace, fun c hc => ?_, List.takeWhile_append_dropWhile.symm⟩
  exact isSpace_eq_true_iff.mp (List.mem_takeWhile_imp hc)

/-- All white space is skipped. -/
theorem head?_skipSpace (s : List Char) : ∀ c ∈ (skipSpace s).head?, c ∉ spaces := by
  intro c hc hmem
  have hnot := List.head?_dropWhile_not isSpace s
  rw [← skipSpace, Option.mem_def.mp hc] at hnot
  exact Bool.false_ne_true (hnot.symm.trans (isSpace_eq_true_iff.mpr hmem))

/-- White space is skipped once. -/
theorem skipSpace_skipSpace (s : List Char) : skipSpace (skipSpace s) = skipSpace s :=
  List.dropWhile_idempotent isSpace s

/-- A character is read exactly if it stands at the front. -/
theorem expect_eq_ok_iff {c : Char} {s rest : List Char} :
    expect c s = .ok rest ↔ s = c :: rest := by
  cases s with
  | nil => simp [expect]
  | cons d s =>
    rw [expect]
    split
    next h => simp [h]
    next h => simp [h]

/-- Something else is tried where a character is missing. -/
theorem isFinal_of_expect_eq_error {c : Char} {s : List Char} {fault : SyntaxFault}
    (h : expect c s = .error fault) : fault.isFinal = false := by
  rw [expect.eq_def] at h
  split at h
  next => split at h <;> cases h; rfl
  next => cases h; rfl

/-- The sign of a comparison tells which one it is. -/
theorem readComparison_eq_ok_iff {s rest : List Char} {op : Comparison} :
    readComparison s = .ok (op, rest) ↔ s = op.chars ++ rest := by
  constructor
  · intro h
    rw [readComparison.eq_def] at h
    split at h <;> cases h <;> rfl
  · rintro rfl
    cases op <;> rfl

/-- Every sign starts with a character that ends a name and is no parenthesis. -/
theorem exists_chars_eq_cons (op : Comparison) :
    ∃ c t, op.chars = c :: t ∧ c ∈ nameEnds ∧ c ∉ ['(', ')'] := by
  cases op <;> exact ⟨_, _, rfl, by decide, by decide⟩

/-! ### Operands -/

/-- A character that is no backslash says itself, also if it is a star. -/
theorem unescape_cons_of_ne {c : Char} (hc : c ≠ '\\') (w : List Char) :
    unescape (c :: w) = c :: unescape w := by
  by_cases hstar : c = '*'
  · subst hstar
    rfl
  · rw [unescape, signs_cons_of_ne hstar hc]
    rfl

/-- A character that may stand for itself is no backslash. -/
theorem ne_backslash_of_notMem {c : Char} (hc : c ∉ ['\\', '(', ')']) : c ≠ '\\' :=
  fun h => hc (h ▸ List.mem_cons_self ..)

/-- An operand says one text, which is what is left of it without its escapes. -/
theorem says_iff {w s : List Char} : Says w s ↔ IsOperand w ∧ s = unescape w := by
  constructor
  · intro h
    induction h with
    | nil => exact ⟨.nil, rfl⟩
    | escaped c _ ih => exact ⟨.escaped c ih.1, by rw [ih.2]; rfl⟩
    | plain hc _ ih =>
      refine ⟨.plain hc ih.1, ?_⟩
      rw [unescape_cons_of_ne (ne_backslash_of_notMem hc), ih.2]
  · rintro ⟨hw, rfl⟩
    induction hw with
    | nil => exact .nil
    | escaped c _ ih => exact .escaped c ih
    | plain hc _ ih =>
      rw [unescape_cons_of_ne (ne_backslash_of_notMem hc)]
      exact .plain hc ih

/-- An operand ends at the first parenthesis that is not escaped, or at the end of the text. -/
theorem spanOperand_spec (s : List Char) :
    s = (spanOperand s).1 ++ (spanOperand s).2 ∧
      ((spanOperand s).2 = [] ∨
        IsOperand (spanOperand s).1 ∧ ∃ c t, (spanOperand s).2 = c :: t ∧ (c = '(' ∨ c = ')')) := by
  fun_induction spanOperand s with
  -- An escaped character never ends the operand, not even a parenthesis.
  | case1 c s ih =>
    obtain ⟨hsplit, hrest⟩ := ih
    refine ⟨congrArg ('\\' :: c :: ·) hsplit, ?_⟩
    rcases hrest with hnil | ⟨hoperand, hparen⟩
    · exact Or.inl hnil
    · exact Or.inr ⟨.escaped c hoperand, hparen⟩
  | case2 c s _ hparen => exact ⟨rfl, Or.inr ⟨.nil, c, s, rfl, hparen⟩⟩
  | case3 c s hescape hparen ih =>
    obtain ⟨hsplit, hrest⟩ := ih
    refine ⟨congrArg (c :: ·) hsplit, ?_⟩
    rcases hrest with hnil | ⟨hoperand, c', t, hcons, hparen'⟩
    · exact Or.inl hnil
    · have hplain : c ∉ ['\\', '(', ')'] := by
        intro hmem
        rcases List.mem_cons.mp hmem with rfl | hmem
        · -- A backslash without a character after it is the end of the text.
          cases s with
          | nil => cases hcons
          | cons d s => exact hescape d s rfl rfl
        · exact hparen (by simpa using hmem)
      exact Or.inr ⟨.plain hplain hoperand, c', t, hcons, hparen'⟩
  | case4 => exact ⟨rfl, Or.inl rfl⟩

/-- An operand is read up to the parenthesis that closes it. -/
theorem spanOperand_append {w : List Char} (hw : IsOperand w) (rest : List Char) :
    spanOperand (w ++ ')' :: rest) = (w, ')' :: rest) := by
  induction hw with
  | nil => simp [spanOperand]
  | escaped c _ ih =>
    rw [List.cons_append, List.cons_append, spanOperand, ih]
    rfl
  | @plain c w hc _ ih =>
    simp only [List.mem_cons, List.not_mem_nil, or_false, not_or] at hc
    rw [List.cons_append, spanOperand.eq_2 _ _ fun _ _ h _ => hc.1 h, if_neg (by tauto), ih]
    rfl

/-- Reading an operand takes the longest one, which a parenthesis has to close. -/
theorem readOperand_eq_ok_iff {s raw rest : List Char} :
    readOperand s = .ok (raw, rest) ↔
      s = raw ++ rest ∧ IsOperand raw ∧ ∃ t, rest = ')' :: t := by
  constructor
  · intro h
    obtain ⟨hsplit, hrest⟩ := spanOperand_spec s
    rw [readOperand] at h
    split at h
    next => cases h
    next raw' c t hspan =>
      rw [hspan] at hsplit hrest
      -- Any parenthesis ends an operand, but only a closing one is accepted behind it.
      split at h
      · cases h
      · cases h
        obtain hnil | ⟨hoperand, c', t', hcons, hparen⟩ := hrest
        · cases hnil
        · cases hcons
          exact ⟨hsplit, hoperand, t, by rw [hparen.resolve_left ‹_›]⟩
  · rintro ⟨rfl, hraw, t, rfl⟩
    rw [readOperand, spanOperand_append hraw]
    simp

/-! ### Items -/

/-- A name goes up to the first character that does not occur in names. -/
theorem takeWhile_append_nameEnd {name t : List Char} {c : Char}
    (hname : ∀ c ∈ name, c ∉ nameEnds) (hc : c ∈ nameEnds) :
    (name ++ c :: t).takeWhile (!isNameEnd ·) = name ∧
      (name ++ c :: t).dropWhile (!isNameEnd ·) = c :: t := by
  have hinside : ∀ d ∈ name, (!isNameEnd d) = true := by
    intro d hd
    rw [Bool.not_eq_true', ← Bool.not_eq_true, isNameEnd_eq_true_iff]
    exact hname d hd
  have hend : ¬(!isNameEnd c) = true := by simpa using isNameEnd_eq_true_iff.mpr hc
  rw [List.takeWhile_append_of_pos hinside, List.dropWhile_append_of_pos hinside,
    List.takeWhile_cons_of_neg (p := (!isNameEnd ·)) hend,
    List.dropWhile_cons_of_neg (p := (!isNameEnd ·)) hend, List.append_nil]
  exact ⟨rfl, rfl⟩

/-- An item is read as its name, sign and operand, which a parenthesis has to close. -/
theorem readItem_eq_ok_iff {s rest : List Char} {f : Filter} :
    readItem s = .ok (f, rest) ↔
      ∃ name op raw, s = name ++ (op.chars ++ (raw ++ rest)) ∧ (∀ c ∈ name, c ∉ nameEnds) ∧
        trimEnd name ≠ [] ∧ IsOperand raw ∧ (∃ t, rest = ')' :: t) ∧
          f = item (trimEnd name) op raw := by
  constructor
  · -- Each of the three steps has to succeed, which names the three parts.
    intro h
    rw [readItem] at h
    split at h
    next => cases h
    split at h
    next => cases h
    next hproper =>
      cases hop : readComparison (s.dropWhile (!isNameEnd ·)) with
      | error fault => rw [hop] at h; cases h
      | ok a =>
        obtain ⟨op, t⟩ := a
        rw [hop] at h
        cases hraw : readOperand t with
        | error fault => simp [bind, Except.bind, hraw, Functor.map, Except.map] at h
        | ok b =>
          obtain ⟨raw, u⟩ := b
          obtain ⟨rfl, rfl⟩ : item (trimEnd _) op raw = f ∧ u = rest := by
            simpa [bind, Except.bind, hraw, Functor.map, Except.map] using h
          obtain ⟨rfl, hoperand, hclose⟩ := readOperand_eq_ok_iff.mp hraw
          refine ⟨s.takeWhile (!isNameEnd ·), op, raw, ?_, fun c hc => ?_, by simpa using hproper,
            hoperand, hclose, rfl⟩
          · rw [← readComparison_eq_ok_iff.mp hop, List.takeWhile_append_dropWhile]
          · rw [← isNameEnd_eq_true_iff]
            simpa using List.mem_takeWhile_imp hc
  · rintro ⟨name, op, raw, rfl, hname, hproper, hraw, hclose, rfl⟩
    obtain ⟨c, t, hop, hc, -⟩ := exists_chars_eq_cons op
    have hsplit := takeWhile_append_nameEnd (t := t ++ (raw ++ rest)) hname hc
    rw [← List.cons_append, ← hop] at hsplit
    have hnonempty : name.isEmpty = false := by
      cases name with
      | nil => exact absurd rfl hproper
      | cons => rfl
    rw [readItem, hsplit.1, hsplit.2, hnonempty, if_neg Bool.false_ne_true,
      if_neg (by simpa using hproper), readComparison_eq_ok_iff.mpr rfl]
    simp [bind, Except.bind, readOperand_eq_ok_iff.mpr ⟨rfl, hraw, hclose⟩, Functor.map,
      Except.map]

/-- An item with an equals sign is the condition for the pieces of its operand. -/
theorem item_eq (name raw : List Char) :
    item name .eq raw = ofPieces (String.ofList name) (piecesOf (String.ofList raw)) := by
  simp [item, piecesOf]

/-- An item with another sign is a comparison with the operand without its escapes. -/
theorem item_of_ne_eq {op : Comparison} (h : op ≠ .eq) (name raw : List Char) :
    item name op raw =
      .comparison (String.ofList name) op (String.ofList (unescape raw)) := by
  cases op with
  | eq => exact absurd rfl h
  | lte => rfl
  | gte => rfl
  | approx => rfl

/-- A text in which a parenthesis follows the name is no item. -/
theorem readItem_ne_ok {name t rest : List Char} {paren : Char} {f : Filter}
    (hname : ∀ c ∈ name, c ∉ nameEnds) (hparen : paren ∈ ['(', ')']) :
    readItem (name ++ paren :: t) ≠ .ok (f, rest) := by
  rw [Ne, readItem_eq_ok_iff]
  rintro ⟨name', op, raw, heq, hname', -⟩
  obtain ⟨c, t', hop, hc, hne⟩ := exists_chars_eq_cons op
  have hend : paren ∈ nameEnds := by
    rcases List.mem_pair.mp hparen with rfl | rfl <;> decide
  -- The first character outside the name is both the parenthesis and the start of a sign.
  have hleft := (takeWhile_append_nameEnd (t := t) hname hend).2
  have hright := (takeWhile_append_nameEnd (t := t' ++ (raw ++ rest)) hname' hc).2
  rw [heq, hop, List.cons_append, hright] at hleft
  exact hne ((List.cons.inj hleft).1 ▸ hparen)

/-! ### One step of the readers -/

namespace Reading

variable {α β : Type} {s t : List Char}

/-- What a reading gives: a value and the rest of the text, or a fault. -/
def outcome (r : Reading α s) : Except SyntaxFault (α × List Char) :=
  r.map (Prod.map id Subtype.val)

@[simp] theorem outcome_error (fault : SyntaxFault) :
    outcome (.error fault : Reading α s) = .error fault := rfl

@[simp] theorem outcome_ok (a : α) (rest : { rest : List Char // rest.length < s.length }) :
    outcome (.ok (a, rest) : Reading α s) = .ok (a, rest.val) := rfl

/-- A reading that fails, so that something else is tried. -/
def Yields (r : Reading α s) : Prop :=
  ∃ fault, r = .error fault ∧ fault.isFinal = false

/-- A reading gives a value exactly if it holds it, with a shorter rest. -/
theorem outcome_eq_ok_iff {r : Reading α s} {a : α} {rest : List Char} :
    r.outcome = .ok (a, rest) ↔ ∃ h, r = .ok (a, ⟨rest, h⟩) := by
  cases r with
  | error fault => simp [outcome, Except.map]
  | ok b =>
    obtain ⟨b, rest', h'⟩ := b
    constructor
    · intro h
      cases h
      exact ⟨h', rfl⟩
    · rintro ⟨h, heq⟩
      cases heq
      rfl

/-- A reading that gives a value leaves a shorter rest. -/
theorem length_lt_of_outcome {r : Reading α s} {a : α} {rest : List Char}
    (h : r.outcome = .ok (a, rest)) : rest.length < s.length :=
  (outcome_eq_ok_iff.mp h).1

/-- As a reading, an item gives what the reader of items gives. -/
theorem outcome_ofItem (s : List Char) : (ofItem s).outcome = readItem s := by
  rw [ofItem]
  split
  next h => exact h.symm
  next h => exact h.symm

/-- A reading inside a longer text gives the same rest, and the value that is made of its own. -/
theorem outcome_widen_eq_ok_iff {f : α → β} {h : t.length ≤ s.length} {r : Reading α t} {b : β}
    {rest : List Char} :
    (widen f h r).outcome = .ok (b, rest) ↔ ∃ a, r.outcome = .ok (a, rest) ∧ f a = b := by
  cases r with
  | error fault => simp [widen, outcome, Except.map]
  | ok a => simp [widen, outcome, Except.map, and_comm, Prod.map]

/-- A reading inside a longer text yields exactly if the reading does. -/
theorem yields_widen_iff {f : α → β} {h : t.length ≤ s.length} {r : Reading α t} :
    (widen f h r).Yields ↔ r.Yields := by
  cases r <;> simp [widen, Yields, Except.map]

/-- A value comes from the first reading, or from the other one if the first one yields to it. -/
theorem outcome_orElse_eq_ok_iff {r other : Reading α s} {a : α} {rest : List Char} :
    (r.orElse other).outcome = .ok (a, rest) ↔
      r.outcome = .ok (a, rest) ∨ r.Yields ∧ other.outcome = .ok (a, rest) := by
  cases r with
  | error fault =>
    rw [orElse]
    split
    next h => simp [outcome, Except.map, Yields, h]
    next h => simp [outcome, Except.map, Yields, h]
  | ok b => simp [orElse, Yields]

/-- An attempt that yields to every item leaves the items to the reading of items. -/
theorem outcome_attempt_eq_ok_iff {f : α → Filter} {h : t.length ≤ s.length} {r : Reading α t}
    {g : Filter} {rest : List Char} (hyields : readItem s = .ok (g, rest) → r.Yields) :
    ((widen f h r).orElse (ofItem s)).outcome = .ok (g, rest) ↔
      (∃ a, r.outcome = .ok (a, rest) ∧ f a = g) ∨ readItem s = .ok (g, rest) := by
  rw [outcome_orElse_eq_ok_iff, outcome_widen_eq_ok_iff, yields_widen_iff, outcome_ofItem,
    and_iff_right_of_imp hyields]

end Reading

/-- A filter is read as a parenthesis, a body and a parenthesis, with white space around them. -/
theorem readFilter_eq_ok_iff {s rest : List Char} {f : Filter} :
    (readFilter s).outcome = .ok (f, rest) ↔
      ∃ t u, skipSpace s = '(' :: t ∧
        (readBody (skipSpace t)).outcome = .ok (f, ')' :: u) ∧ rest = skipSpace u := by
  rw [readFilter]
  split
  next fault hopen =>
    -- The parenthesis in front is missing, and what follows the white space shows it.
    refine iff_of_false (by simp) ?_
    rintro ⟨t, u, hs, -⟩
    rw [expect_eq_ok_iff.mpr hs] at hopen
    cases hopen
  next t hopen =>
    rw [expect_eq_ok_iff] at hopen
    split
    next fault hbody => simp [hopen, hbody]
    next f' rest' hbody =>
      split
      next fault hclose =>
        -- The body was read as it would have to be, but no parenthesis follows it.
        refine iff_of_false (by simp) ?_
        rintro ⟨t', u, hs, hok, -⟩
        obtain rfl := (List.cons.inj (hopen.symm.trans hs)).2
        rw [hbody, Reading.outcome_ok] at hok
        rw [expect_eq_ok_iff.mpr (Prod.mk.inj (Except.ok.inj hok)).2] at hclose
        cases hclose
      next u hclose =>
        rw [expect_eq_ok_iff] at hclose
        simp [hopen, hbody, hclose, eq_comm]

/-- Filters are read one after the other until the next reading yields. -/
theorem readFilters_eq_ok_iff {s rest : List Char} {fs : List Filter} :
    (readFilters s).outcome = .ok (fs, rest) ↔
      ∃ f t, (readFilter s).outcome = .ok (f, t) ∧
        (fs = [f] ∧ rest = t ∧ (readFilters t).Yields ∨
          ∃ fs', (readFilters t).outcome = .ok (fs', rest) ∧ fs = f :: fs') := by
  rw [readFilters]
  split
  next fault hfilter => simp [hfilter]
  next f t hfilter =>
    split
    next fault hfilters =>
      -- A final fault ends the whole reading, and any other one ends the list.
      split
      next h => simp [Reading.Yields, hfilter, hfilters, h]
      next h =>
        simp [Reading.Yields, hfilter, hfilters, h, eq_comm (a := fs), eq_comm (a := rest)]
    next fs' rest' hfilters =>
      simp [Reading.Yields, hfilter, hfilters, and_comm, eq_comm (a := fs)]

/-- White space in front of filters makes no difference. -/
theorem readFilters_skipSpace_eq_ok_iff {s rest : List Char} {fs : List Filter} :
    (readFilters (skipSpace s)).outcome = .ok (fs, rest) ↔
      (readFilters s).outcome = .ok (fs, rest) := by
  rw [readFilters_eq_ok_iff, readFilters_eq_ok_iff]
  simp only [readFilter_eq_ok_iff, skipSpace_skipSpace]

/-! ### Operators and items -/

/-- A reading of filters yields if there is no parenthesis to start with. -/
theorem yields_readFilter {s : List Char} (h : ∀ t, skipSpace s ≠ '(' :: t) :
    (readFilter s).Yields := by
  rw [readFilter]
  split
  next fault hopen => exact ⟨fault, rfl, isFinal_of_expect_eq_error hopen⟩
  next t hopen => exact absurd (expect_eq_ok_iff.mp hopen) (h t)

/-- A list of filters cannot start with a filter whose reading yields. -/
theorem yields_readFilters {s : List Char} (h : (readFilter s).Yields) :
    (readFilters s).Yields := by
  obtain ⟨fault, hfault, hyields⟩ := h
  rw [readFilters, hfault]
  exact ⟨fault, rfl, hyields⟩

/-- Behind the first character of an item, no filter can be read. -/
theorem yields_readFilter_of_readItem {c : Char} {t rest : List Char} {f : Filter}
    (hc : c ∉ nameEnds) (h : readItem (c :: t) = .ok (f, rest)) : (readFilter t).Yields := by
  refine yields_readFilter fun u hopen => ?_
  obtain ⟨w, hw, ht⟩ := exists_isSpace_append t
  rw [ht, hopen, ← List.cons_append] at h
  refine readItem_ne_ok (fun d hd => ?_) (by decide) h
  rcases List.mem_cons.mp hd with rfl | hd
  · exact hc
  · exact notMem_nameEnds_of_mem_spaces d (hw d hd)

/-- A body is read as an operator or as an item, and no body is both. -/
theorem readBody_eq_ok_iff {s rest : List Char} {f : Filter} :
    (readBody s).outcome = .ok (f, rest) ↔
      (∃ t, s = '&' :: t ∧ ∃ fs, (readFilters t).outcome = .ok (fs, rest) ∧ .and fs = f) ∨
      (∃ t, s = '|' :: t ∧ ∃ fs, (readFilters t).outcome = .ok (fs, rest) ∧ .or fs = f) ∨
      (∃ t, s = '!' :: t ∧ ∃ g, (readFilter t).outcome = .ok (g, rest) ∧ .not g = f) ∨
      (∃ t, s = '*' :: ')' :: t ∧ rest = ')' :: t ∧ f = .all) ∨
      readItem s = .ok (f, rest) := by
  rw [readBody.eq_def]
  -- If the body is an item, the attempt to read an operator fails and yields to the item.
  split
  next t =>
    rw [Reading.outcome_attempt_eq_ok_iff fun h =>
      yields_readFilters (yields_readFilter_of_readItem (by decide) h)]
    simp
  next t =>
    rw [Reading.outcome_attempt_eq_ok_iff fun h =>
      yields_readFilters (yields_readFilter_of_readItem (by decide) h)]
    simp
  next t =>
    rw [Reading.outcome_attempt_eq_ok_iff fun h => yields_readFilter_of_readItem (by decide) h]
    simp
  next t =>
    -- The star is a name, but no sign of a comparison follows.
    have hname : ∀ c ∈ ['*'], c ∉ nameEnds := List.forall_mem_singleton.mpr (by decide)
    have hitem : readItem ('*' :: ')' :: t) ≠ .ok (f, rest) :=
      readItem_ne_ok hname (by decide)
    simp [hitem, eq_comm (a := f), eq_comm (a := rest), and_comm]
  next hand hor hnot hall =>
    rw [Reading.outcome_ofItem]
    refine ⟨fun h => Or.inr (Or.inr (Or.inr (Or.inr h))), ?_⟩
    rintro (⟨t, hs, -⟩ | ⟨t, hs, -⟩ | ⟨t, hs, -⟩ | ⟨t, hs, -⟩ | h)
    · exact (hand t hs).elim
    · exact (hor t hs).elim
    · exact (hnot t hs).elim
    · exact (hall t hs).elim
    · exact h

/-! ### From derivations to readings -/

namespace Grammar

/-- A body does not start with white space. -/
theorem IsBody.exists_eq_cons {w : List Char} {f : Filter} (h : IsBody w f) :
    ∃ c t, w = c :: t ∧ c ∉ spaces := by
  cases h with
  | and => exact ⟨_, _, rfl, by decide⟩
  | or => exact ⟨_, _, rfl, by decide⟩
  | not => exact ⟨_, _, rfl, by decide⟩
  | all => exact ⟨_, _, rfl, by decide⟩
  | equality hname =>
    obtain ⟨c, t, hcons, hc⟩ := hname.exists_eq_cons
    exact ⟨c, _, by rw [hcons, List.cons_append], hc⟩
  | comparison _ hname =>
    obtain ⟨c, t, hcons, hc⟩ := hname.exists_eq_cons
    exact ⟨c, _, by rw [hcons, List.cons_append], hc⟩

mutual

/-- A derivable filter is read, with the white space after it, whatever follows. -/
theorem IsFilter.reads {w : List Char} {f : Filter} (h : IsFilter w f) (rest : List Char) :
    (readFilter (w ++ rest)).outcome = .ok (f, skipSpace rest) := by
  match h with
  | @IsFilter.parens before start body after _ hbefore hstart hbody hafter =>
    obtain ⟨c, t, hcons, hc⟩ := hbody.exists_eq_cons
    -- The reader skips the white space that the grammar allows, and the body starts with none.
    rw [readFilter_eq_ok_iff]
    refine ⟨start ++ (body ++ ')' :: (after ++ rest)), after ++ rest, ?_, ?_, ?_⟩
    · rw [List.append_assoc, skipSpace_append hbefore, List.cons_append,
        skipSpace_cons (by decide)]
      simp
    · rw [skipSpace_append hstart, hcons, List.cons_append, skipSpace_cons hc,
        ← List.cons_append, ← hcons]
      exact hbody.reads (after ++ rest)
    · exact (skipSpace_append hafter rest).symm

/-- A derivable body is read up to the parenthesis that closes it. -/
theorem IsBody.reads {w : List Char} {f : Filter} (h : IsBody w f) (rest : List Char) :
    (readBody (w ++ ')' :: rest)).outcome = .ok (f, ')' :: rest) := by
  rw [readBody_eq_ok_iff]
  -- A reader has five ways to read a body, and a production says which of them it is.
  match h with
  | .and hfilters => exact Or.inl ⟨_, rfl, _, hfilters.reads rest, rfl⟩
  | .or hfilters => exact Or.inr (Or.inl ⟨_, rfl, _, hfilters.reads rest, rfl⟩)
  | .not hfilter =>
    exact Or.inr (Or.inr (Or.inl ⟨_, rfl, _, hfilter.reads (')' :: rest), rfl⟩))
  | .all => exact Or.inr (Or.inr (Or.inr (Or.inl ⟨rest, rfl, rfl, rfl⟩)))
  | @IsBody.equality name operand hname hoperand =>
    refine Or.inr (Or.inr (Or.inr (Or.inr (readItem_eq_ok_iff.mpr ?_))))
    refine ⟨name, .eq, operand, ?_, hname.notMem_nameEnds, hname.trimEnd_ne_nil, hoperand,
      ⟨rest, rfl⟩, ?_⟩
    · simp [Comparison.chars]
    · exact (item_eq _ _).symm
  | @IsBody.comparison name operand said op hop hname hsays =>
    obtain ⟨hoperand, rfl⟩ := says_iff.mp hsays
    refine Or.inr (Or.inr (Or.inr (Or.inr (readItem_eq_ok_iff.mpr ?_))))
    refine ⟨name, op, operand, ?_, hname.notMem_nameEnds, hname.trimEnd_ne_nil, hoperand,
      ⟨rest, rfl⟩, ?_⟩
    · simp
    · exact (item_of_ne_eq hop _ _).symm

/-- Derivable filters are read up to the parenthesis behind them. -/
theorem AreFilters.reads {w : List Char} {fs : List Filter} (h : AreFilters w fs)
    (rest : List Char) : (readFilters (w ++ ')' :: rest)).outcome = .ok (fs, ')' :: rest) := by
  rw [readFilters_eq_ok_iff]
  match h with
  | .one hfilter =>
    -- A parenthesis that closes starts no filter, so that the reading ends here.
    refine ⟨_, _, hfilter.reads (')' :: rest), Or.inl ⟨rfl, rfl, ?_⟩⟩
    exact yields_readFilters (yields_readFilter (by simp [skipSpace_cons, spaces]))
  | @AreFilters.more w w' _ _ hfilter hfilters =>
    -- The white space between filters belongs to either of them; the reader gives it to the first.
    refine ⟨_, skipSpace (w' ++ ')' :: rest), ?_, Or.inr ⟨_, ?_, rfl⟩⟩
    · rw [List.append_assoc]
      exact hfilter.reads (w' ++ ')' :: rest)
    · exact readFilters_skipSpace_eq_ok_iff.mpr (hfilters.reads rest)

end

end Grammar

/-! ### From readings to derivations -/

/-- An item is derivable, whichever sign it has. -/
theorem Grammar.IsBody.item {name raw : List Char} (hname : IsName name) (op : Comparison)
    (hraw : IsOperand raw) :
    IsBody (name ++ (op.chars ++ raw)) (Filter.item (trimEnd name) op raw) := by
  by_cases hop : op = .eq
  · subst hop
    rw [item_eq]
    exact .equality hname hraw
  · rw [item_of_ne_eq hop]
    exact .comparison hop hname (says_iff.mpr ⟨hraw, rfl⟩)

/-- What is read as an item is derivable if it does not start with white space. -/
theorem exists_isBody_of_readItem {s rest : List Char} {f : Filter}
    (hs : ∀ c ∈ s.head?, c ∉ spaces) (h : readItem s = .ok (f, rest)) :
    ∃ w, s = w ++ rest ∧ IsBody w f := by
  obtain ⟨name, op, raw, rfl, hends, htrim, hraw, -, rfl⟩ := readItem_eq_ok_iff.mp h
  have hname : IsName name := by
    refine ⟨hends, fun c hc => hs c ?_, htrim⟩
    rw [List.head?_append, Option.mem_def.mp hc]
    rfl
  exact ⟨name ++ (op.chars ++ raw), by simp, .item hname op hraw⟩

mutual

/-- What is read as a filter is derivable. -/
theorem exists_isFilter_of_readFilter {s rest : List Char} {f : Filter}
    (h : (readFilter s).outcome = .ok (f, rest)) : ∃ w, s = w ++ rest ∧ IsFilter w f := by
  obtain ⟨t, u, hopen, hread, rfl⟩ := readFilter_eq_ok_iff.mp h
  have hlength : (skipSpace t).length < s.length := by
    have hle := length_skipSpace_le s
    rw [hopen] at hle
    exact Nat.lt_of_le_of_lt (length_skipSpace_le t) hle
  -- The white space that the reader skips is what the derivation has around the parentheses.
  obtain ⟨body, ht, hbody⟩ := exists_isBody_of_readBody (head?_skipSpace t) hread
  obtain ⟨before, hbefore, hs⟩ := exists_isSpace_append s
  obtain ⟨start, hstart, htstart⟩ := exists_isSpace_append t
  obtain ⟨after, hafter, huafter⟩ := exists_isSpace_append u
  refine ⟨_, ?_, .parens hbefore hstart hbody hafter⟩
  calc s = before ++ '(' :: t := by rw [← hopen, ← hs]
    _ = before ++ '(' :: (start ++ (body ++ ')' :: u)) := by rw [← ht, ← htstart]
    _ = before ++ '(' :: (start ++ (body ++ ')' :: (after ++ skipSpace u))) := by rw [← huafter]
    _ = before ++ '(' :: (start ++ (body ++ ')' :: after)) ++ skipSpace u := by simp
termination_by 2 * s.length

/-- What is read as a body is derivable if it does not start with white space. -/
theorem exists_isBody_of_readBody {s rest : List Char} {f : Filter}
    (hs : ∀ c ∈ s.head?, c ∉ spaces) (h : (readBody s).outcome = .ok (f, rest)) :
    ∃ w, s = w ++ rest ∧ IsBody w f := by
  rcases readBody_eq_ok_iff.mp h with ⟨t, rfl, fs, hread, rfl⟩ | ⟨t, rfl, fs, hread, rfl⟩ |
    ⟨t, rfl, g, hread, rfl⟩ | ⟨t, rfl, rfl, rfl⟩ | hread
  -- What stands behind an operator is shorter, which ends the recursion.
  · have hlength : t.length < ('&' :: t).length := Nat.lt_succ_self _
    obtain ⟨w, rfl, hw⟩ := exists_areFilters_of_readFilters hread
    exact ⟨'&' :: w, rfl, .and hw⟩
  · have hlength : t.length < ('|' :: t).length := Nat.lt_succ_self _
    obtain ⟨w, rfl, hw⟩ := exists_areFilters_of_readFilters hread
    exact ⟨'|' :: w, rfl, .or hw⟩
  · have hlength : t.length < ('!' :: t).length := Nat.lt_succ_self _
    obtain ⟨w, rfl, hw⟩ := exists_isFilter_of_readFilter hread
    exact ⟨'!' :: w, rfl, .not hw⟩
  · exact ⟨['*'], rfl, .all⟩
  · exact exists_isBody_of_readItem hs hread
termination_by 2 * s.length

/-- What is read as filters one after the other is derivable. -/
theorem exists_areFilters_of_readFilters {s rest : List Char} {fs : List Filter}
    (h : (readFilters s).outcome = .ok (fs, rest)) : ∃ w, s = w ++ rest ∧ AreFilters w fs := by
  obtain ⟨f, t, hread, hmore⟩ := readFilters_eq_ok_iff.mp h
  have hlength : t.length < s.length := Reading.length_lt_of_outcome hread
  obtain ⟨w, hs, hw⟩ := exists_isFilter_of_readFilter hread
  rcases hmore with ⟨rfl, rfl, -⟩ | ⟨fs', hread', rfl⟩
  · exact ⟨w, hs, .one hw⟩
  · obtain ⟨w', ht, hw'⟩ := exists_areFilters_of_readFilters hread'
    exact ⟨w ++ w', by rw [hs, ht, List.append_assoc], .more hw hw'⟩
termination_by 2 * s.length + 1

end

/-! ### Texts -/

/-- A text is read as a filter if nothing is left of it. -/
theorem parse_eq_ok_iff {t : String} {f : Filter} :
    parse t = .ok f ↔ (readFilter t.toList).outcome = .ok (f, []) := by
  rw [parse]
  split
  next fault h => simp [h]
  next g hlength h => simp [h]
  next g rest hlength hrest h =>
    have hne : rest ≠ [] := hrest
    simp [h, hne]

/-- The reader takes the texts that the grammar derives, and reads the derived filter. -/
theorem parse_eq_ok_iff_isFilter {t : String} {f : Filter} :
    parse t = .ok f ↔ IsFilter t.toList f := by
  rw [parse_eq_ok_iff]
  constructor
  · intro h
    obtain ⟨w, ht, hw⟩ := exists_isFilter_of_readFilter h
    rw [ht, List.append_nil]
    exact hw
  · intro h
    have hread := h.reads []
    rw [List.append_nil] at hread
    exact hread

/-- A text is read as a filter exactly if the grammar derives the filter from it, and the grammar
derives at most one filter from a text. -/
theorem parse_eq_ok_iff_derivable (t : String) :
    (∀ f, parse t = .ok f ↔ IsFilter t.toList f) ∧
      {f | IsFilter t.toList f}.Subsingleton := by
  refine ⟨fun f => parse_eq_ok_iff_isFilter, fun f hf g hg => ?_⟩
  have hread := (parse_eq_ok_iff_isFilter.mpr hf).symm.trans (parse_eq_ok_iff_isFilter.mpr hg)
  exact Except.ok.inj hread

end BundleWiring.Filter
