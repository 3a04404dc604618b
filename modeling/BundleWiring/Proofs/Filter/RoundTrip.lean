import BundleWiring.Filter.Printer
import BundleWiring.Proofs.Filter.Grammar

/-!
# Writing and Reading Filters

Filters that are read are well formed: conjunctions and disjunctions have members, names can stand
in front of a sign, and only patterns that are neither an equality nor a test for presence are kept
as patterns. The printer escapes what the reader of operands takes apart, so writing a well-formed
filter and reading it again gives the same filter. This module proves:

- `Grammar.IsFilter.wellFormed`: derivable filters are well formed;
- `signs_escape_append`: escaping undoes what the signs of an operand mean;
- `pieces_piecesChars`: patterns are cut into the pieces that they were written from;
- `WellFormed.isFilter_chars`: the written form of a well-formed filter derives the filter;
- `parse_wellFormed_and_parse_text`: what is read is well formed, and what is well formed can be
  written and read again.
-/

namespace BundleWiring.Filter

open Grammar Text

/-! ### Well-formed filters -/

/-- A name that can stand in front of a sign and has no blanks behind it. -/
structure ProperName (name : String) : Prop where
  /-- The name is not empty. -/
  ne_empty : name ≠ ""
  /-- No character ends a name. -/
  notMem_nameEnds : ∀ c ∈ name.toList, c ∉ nameEnds
  /-- The first character is not white space. -/
  head_notMem_spaces : ∀ c ∈ name.toList.head?, c ∉ spaces
  /-- The last character is not blank. -/
  getLast_not_blank : ∀ c ∈ name.toList.getLast?, isBlank c = false

/-- Pieces that are neither those of an equality nor those of a test for presence. -/
structure ProperPieces (pieces : List String) : Prop where
  /-- There is a star. -/
  two_le_length : 2 ≤ pieces.length
  /-- No two stars are neighbours. -/
  interior_ne_empty : ∀ piece ∈ pieces.tail.dropLast, piece ≠ ""
  /-- There is more than a star. -/
  exists_ne_empty : ∃ piece ∈ pieces, piece ≠ ""

/-- A filter that can be written and read again. -/
inductive WellFormed : Filter → Prop where
  | all : WellFormed .all
  | and {fs : List Filter} : fs ≠ [] → (∀ f ∈ fs, WellFormed f) → WellFormed (.and fs)
  | or {fs : List Filter} : fs ≠ [] → (∀ f ∈ fs, WellFormed f) → WellFormed (.or fs)
  | not {f : Filter} : WellFormed f → WellFormed (.not f)
  | comparison {name : String} (op : Comparison) (operand : String) :
    ProperName name → WellFormed (.comparison name op operand)
  | substring {name : String} {pieces : List String} :
    ProperName name → ProperPieces pieces → WellFormed (.substring name pieces)
  | present {name : String} : ProperName name → WellFormed (.present name)

/-! ### What is read is well formed -/

/-- A list of filters in the grammar is not empty. -/
theorem Grammar.AreFilters.ne_nil {w : List Char} {fs : List Filter} (h : AreFilters w fs) :
    fs ≠ [] := by
  cases h <;> exact List.cons_ne_nil _ _

/-- A name without the blanks after it is proper. -/
theorem Grammar.IsName.properName {w : List Char} (h : IsName w) :
    ProperName (String.ofList (trimEnd w)) := by
  -- The blanks at the end are cut off, and what is left is the front of the name.
  have hinit : trimEnd w <+: w := List.rdropWhile_prefix isBlank w
  refine ⟨fun hempty => h.trimEnd_ne_nil ?_, fun c hc => ?_, fun c hc => ?_, fun c hc => ?_⟩
  · rw [← String.toList_ofList (l := trimEnd w), hempty]
    rfl
  · rw [String.toList_ofList] at hc
    exact h.notMem_nameEnds c (hinit.mem hc)
  · rw [String.toList_ofList] at hc
    refine h.head_notMem_spaces c ?_
    obtain ⟨u, hu⟩ := hinit
    rw [← hu, List.head?_append, Option.mem_def.mp hc]
    rfl
  · rw [String.toList_ofList, List.getLast?_eq_getLast_of_ne_nil h.trimEnd_ne_nil] at hc
    cases hc
    exact Bool.eq_false_iff.mpr (List.rdropWhile_last_not isBlank w h.trimEnd_ne_nil)

/-- The pieces of an operand: the texts between its stars, without the empty ones in the middle. -/
theorem pieces_eq (raw : List Char) :
    pieces raw = (splitStars (signs raw)).1 ::
      ((splitStars (signs raw)).2.dropLast.filter (!·.isEmpty) ++
        (splitStars (signs raw)).2.getLast?.toList) :=
  rfl

/-- Reading an operand leaves no empty pieces between others. -/
theorem interior_piecesOf_ne_empty (raw : String) :
    ∀ piece ∈ (piecesOf raw).tail.dropLast, piece ≠ "" := by
  intro piece hpiece
  rw [piecesOf, ← List.map_tail, ← List.map_dropLast, List.mem_map] at hpiece
  obtain ⟨cs, hcs, rfl⟩ := hpiece
  -- The piece is not the first one, which the tail leaves out, and not the last one.
  have hfilter : cs ∈ (splitStars (signs raw.toList)).2.dropLast.filter (!·.isEmpty) := by
    rw [pieces_eq, List.tail_cons] at hcs
    cases hlast : (splitStars (signs raw.toList)).2.getLast? with
    | none =>
      rw [hlast, Option.toList_none, List.append_nil] at hcs
      exact List.dropLast_subset _ hcs
    | some last =>
      rwa [hlast, Option.toList_some, List.dropLast_concat] at hcs
  intro hempty
  rw [← String.toList_ofList (l := cs), hempty] at hfilter
  simp at hfilter

/-- What pieces stand for is well formed if they are not empty between others. -/
theorem wellFormed_ofPieces {name : String} {pieces : List String} (hname : ProperName name)
    (hinterior : ∀ piece ∈ pieces.tail.dropLast, piece ≠ "") :
    WellFormed (ofPieces name pieces) := by
  rw [ofPieces.eq_def]
  split
  next => exact .comparison .eq "" hname
  next piece => exact .comparison .eq piece hname
  next => exact .present hname
  next hnil hone hstar =>
    match pieces with
    | [] => exact absurd rfl hnil
    | [piece] => exact (hone piece rfl).elim
    | [first, last] =>
      -- Two empty pieces are a test for presence, which is the case before.
      refine .substring hname ⟨Nat.le_refl 2, hinterior, ?_⟩
      by_contra hempty
      have hfirst : first = "" := by simpa using fun h => hempty ⟨first, by simp, h⟩
      have hlast : last = "" := by simpa using fun h => hempty ⟨last, by simp, h⟩
      exact hstar (by rw [hfirst, hlast])
    | first :: second :: third :: pieces =>
      -- The second piece lies between others.
      refine .substring hname ⟨by simp, hinterior, second, by simp, ?_⟩
      exact hinterior second (by simp)

namespace Grammar

mutual

/-- Derivable filters are well formed. -/
theorem IsFilter.wellFormed {w : List Char} {f : Filter} (h : IsFilter w f) : WellFormed f := by
  match h with
  | .parens _ _ hbody _ => exact hbody.wellFormed

/-- Derivable bodies are well formed. -/
theorem IsBody.wellFormed {w : List Char} {f : Filter} (h : IsBody w f) : WellFormed f := by
  match h with
  | .and hfilters => exact .and hfilters.ne_nil hfilters.wellFormed
  | .or hfilters => exact .or hfilters.ne_nil hfilters.wellFormed
  | .not hfilter => exact .not hfilter.wellFormed
  | .all => exact .all
  | .equality hname _ => exact wellFormed_ofPieces hname.properName (interior_piecesOf_ne_empty _)
  | .comparison _ hname _ => exact .comparison _ _ hname.properName

/-- Derivable filters are well formed, all of them. -/
theorem AreFilters.wellFormed {w : List Char} {fs : List Filter} (h : AreFilters w fs) :
    ∀ f ∈ fs, WellFormed f := by
  match h with
  | .one hfilter => exact List.forall_mem_singleton.mpr hfilter.wellFormed
  | .more hfilter hfilters =>
    exact List.forall_mem_cons.mpr ⟨hfilter.wellFormed, hfilters.wellFormed⟩

end

end Grammar

/-! ### Operands -/

/-- A character without a meaning of its own is literal. -/
theorem signs_cons {c : Char} (hc : isSpecial c = false) (s : List Char) :
    signs (c :: s) = .literal c :: signs s := by
  simp only [isSpecial, Bool.or_eq_false_iff, beq_eq_false_iff_ne] at hc
  exact signs_cons_of_ne hc.2 hc.1.1.1 s

/-- The signs of an escaped text are its characters. -/
theorem signs_escape_append (s t : List Char) :
    signs (escape s ++ t) = s.map .literal ++ signs t := by
  induction s with
  | nil => rfl
  | cons c s ih =>
    rw [escape, List.flatMap_cons, ← escape, List.append_assoc]
    split
    next =>
      -- Behind a backslash, a special character is literal.
      rw [List.cons_append, List.cons_append, List.nil_append, signs, ih]
      rfl
    next hc =>
      rw [List.cons_append, List.nil_append, signs_cons (by simpa using hc), ih]
      rfl

/-- Literal characters belong to the first piece. -/
theorem splitStars_map_literal_append (s : List Char) (t : List Sign) :
    splitStars (s.map .literal ++ t) = (splitStars t).map (s ++ ·) id := by
  induction s with
  | nil => rfl
  | cons c s ih =>
    rw [List.map_cons, List.cons_append, splitStars, ih]
    rfl

/-- An escaped text is literal throughout. -/
theorem signs_escape (s : List Char) : signs (escape s) = s.map .literal := by
  simpa [signs] using signs_escape_append s []

/-- An escaped text is one text without stars, the one that was escaped. -/
theorem splitStars_signs_escape (s : List Char) : splitStars (signs (escape s)) = (s, []) := by
  rw [signs_escape, ← List.append_nil (s.map _), splitStars_map_literal_append]
  simp [splitStars]

/-- A text is escaped as one piece. -/
theorem pieces_escape (s : List Char) : pieces (escape s) = [s] := by
  rw [pieces_eq, splitStars_signs_escape]
  rfl

/-- Nothing but the escapes is removed from an escaped text. -/
theorem unescape_escape (s : List Char) : unescape (escape s) = s := by
  rw [unescape, signs_escape, List.map_map]
  exact List.map_id s

/-- The first piece stands in front of a star. -/
theorem piecesChars_cons (p q : String) (ps : List String) :
    piecesChars (p :: q :: ps) = escape p.toList ++ '*' :: piecesChars (q :: ps) := by
  rw [piecesChars, List.map_cons, List.map_cons, List.intercalate_cons_cons]
  simp [piecesChars]

/-- Pieces are cut apart at the stars between them. -/
theorem splitStars_piecesChars (p : String) (ps : List String) :
    splitStars (signs (piecesChars (p :: ps))) = (p.toList, ps.map String.toList) := by
  induction ps generalizing p with
  | nil =>
    rw [piecesChars, List.map_singleton, List.intercalate_singleton, splitStars_signs_escape]
    rfl
  | cons q ps ih =>
    rw [piecesChars_cons, signs_escape_append, splitStars_map_literal_append, signs, splitStars, ih]
    simp

/-- Well-formed pieces are read as they were written. -/
theorem pieces_piecesChars {ps : List String} (h : ProperPieces ps) :
    pieces (piecesChars ps) = ps.map String.toList := by
  match ps with
  | [] => exact absurd h.two_le_length (by simp)
  | [_] => exact absurd h.two_le_length (by simp)
  | first :: second :: others =>
    -- The pieces are written with a star between any two, so none is empty but at the ends.
    have hinterior : ((second :: others).map String.toList).dropLast.filter (!·.isEmpty) =
        ((second :: others).map String.toList).dropLast := by
      rw [List.filter_eq_self, ← List.map_dropLast, List.forall_mem_map]
      intro piece hpiece
      simpa using h.interior_ne_empty piece hpiece
    have hne : (second :: others).map String.toList ≠ [] := List.cons_ne_nil _ _
    rw [pieces_eq, splitStars_piecesChars, hinterior, List.getLast?_eq_getLast_of_ne_nil hne,
      Option.toList_some, List.dropLast_append_getLast hne]
    rfl

namespace Grammar

/-- An operand behind an operand is an operand. -/
theorem IsOperand.append {w w' : List Char} (h : IsOperand w) (h' : IsOperand w') :
    IsOperand (w ++ w') := by
  induction h with
  | nil => exact h'
  | escaped c _ ih => exact .escaped c ih
  | plain hc _ ih => exact .plain hc ih

/-- An escaped text is an operand. -/
theorem isOperand_escape (s : List Char) : IsOperand (escape s) := by
  induction s with
  | nil => exact .nil
  | cons c s ih =>
    rw [escape, List.flatMap_cons, ← escape]
    split
    next => exact .escaped c ih
    next hc =>
      refine .plain ?_ ih
      simp [isSpecial] at hc
      simp [hc]

/-- Written pieces are an operand. -/
theorem isOperand_piecesChars (ps : List String) : IsOperand (piecesChars ps) := by
  match ps with
  | [] => exact .nil
  | [p] =>
    rw [piecesChars, List.map_singleton, List.intercalate_singleton]
    exact isOperand_escape p.toList
  | p :: q :: ps =>
    rw [piecesChars_cons]
    exact (isOperand_escape p.toList).append (.plain (by decide) (isOperand_piecesChars (q :: ps)))

end Grammar

/-! ### What is well formed is read as it was written -/

/-- A proper name has no blanks after it to be removed. -/
theorem ProperName.trimEnd_eq {name : String} (h : ProperName name) :
    trimEnd name.toList = name.toList := by
  refine (List.rdropWhile_eq_self_iff (p := isBlank)).mpr fun hne => ?_
  rw [h.getLast_not_blank _ (List.getLast?_eq_getLast_of_ne_nil hne)]
  exact Bool.false_ne_true

/-- A proper name is a name of the grammar. -/
theorem ProperName.isName {name : String} (h : ProperName name) : IsName name.toList := by
  refine ⟨h.notMem_nameEnds, h.head_notMem_spaces, fun hempty => h.ne_empty ?_⟩
  rw [h.trimEnd_eq] at hempty
  exact String.toList_eq_nil_iff.mp hempty

/-- A body in parentheses is a filter. -/
theorem Grammar.IsBody.isFilter {w : List Char} {f : Filter} (h : IsBody w f) :
    IsFilter ('(' :: w ++ [')']) f :=
  have hnone : IsSpace [] := List.forall_mem_nil _
  .parens hnone hnone h hnone

/-- An escaped operand is read as the operand. -/
theorem item_escape (name : String) (op : Comparison) (operand : String) :
    item name.toList op (escape operand.toList) = .comparison name op operand := by
  cases op with
  | eq => simp [item, pieces_escape, ofPieces, Filter.eq]
  | lte => simp [item, unescape_escape]
  | gte => simp [item, unescape_escape]
  | approx => simp [item, unescape_escape]

/-- A written pattern is read as the pattern. -/
theorem item_piecesChars (name : String) {ps : List String} (h : ProperPieces ps) :
    item name.toList .eq (piecesChars ps) = .substring name ps := by
  have hread : item name.toList .eq (piecesChars ps) = ofPieces name ps := by
    simp [item, pieces_piecesChars h, Function.comp_def]
  rw [hread, ofPieces.eq_def]
  split
  next => exact absurd h.two_le_length (by simp)
  next => exact absurd h.two_le_length (by simp)
  next => exact absurd h.exists_ne_empty (by simp)
  next => rfl

/-- A star alone is read as a test for presence. -/
theorem item_star (name : String) : item name.toList .eq ['*'] = .present name := by
  simp [item, pieces, signs, splitStars, ofPieces]

/-- An item in parentheses is derivable. -/
theorem ProperName.isFilter_item {name : String} (h : ProperName name) (op : Comparison)
    {raw : List Char} (hraw : IsOperand raw) :
    IsFilter ('(' :: (name.toList ++ (op.chars ++ raw)) ++ [')']) (item name.toList op raw) := by
  have hbody := IsBody.item h.isName op hraw
  rw [h.trimEnd_eq] at hbody
  exact hbody.isFilter

/-- Filters in a row are derivable if each of them is. -/
theorem areFilters_charsAll {fs : List Filter} (hne : fs ≠ [])
    (h : ∀ f ∈ fs, IsFilter f.chars f) : AreFilters (charsAll fs) fs := by
  induction fs with
  | nil => exact absurd rfl hne
  | cons f fs ih =>
    obtain ⟨hf, hfs⟩ := List.forall_mem_cons.mp h
    rw [charsAll]
    cases fs with
    | nil =>
      rw [charsAll, List.append_nil]
      exact .one hf
    | cons g fs => exact .more hf (ih (List.cons_ne_nil g fs) hfs)

/-- The written form of a well-formed filter derives the filter. -/
theorem WellFormed.isFilter_chars {f : Filter} (h : WellFormed f) : IsFilter f.chars f := by
  induction h with
  | all => exact IsBody.all.isFilter
  | and hne _ ih => exact (IsBody.and (areFilters_charsAll hne ih)).isFilter
  | or hne _ ih => exact (IsBody.or (areFilters_charsAll hne ih)).isFilter
  | not _ ih => exact (IsBody.not ih).isFilter
  -- The written items are items in parentheses, up to how the lists of characters are joined.
  | @comparison name op operand hname =>
    have hitem := hname.isFilter_item op (isOperand_escape operand.toList)
    rw [item_escape] at hitem
    simpa [chars] using hitem
  | @substring name ps hname hpieces =>
    have hitem := hname.isFilter_item .eq (isOperand_piecesChars ps)
    rw [item_piecesChars name hpieces] at hitem
    simpa [chars, Comparison.chars] using hitem
  | @present name hname =>
    have hitem := hname.isFilter_item .eq (.plain (by decide) .nil : IsOperand ['*'])
    rw [item_star] at hitem
    simpa [chars, Comparison.chars] using hitem

/-- What a text is read as is well formed, a well-formed filter is read from its written form, and
so writing and reading what was read changes nothing. -/
theorem parse_wellFormed_and_parse_text :
    (∀ t f, parse t = .ok f → WellFormed f) ∧ (∀ f, WellFormed f → parse f.text = .ok f) ∧
      ∀ t f, parse t = .ok f → parse f.text = .ok f := by
  have hread : ∀ t f, parse t = .ok f → WellFormed f := fun t f h =>
    (parse_eq_ok_iff_isFilter.mp h).wellFormed
  have hwritten : ∀ f, WellFormed f → parse f.text = .ok f := by
    intro f h
    rw [parse_eq_ok_iff_isFilter, text, String.toList_ofList]
    exact h.isFilter_chars
  exact ⟨hread, hwritten, fun t f h => hwritten f (hread t f h)⟩

end BundleWiring.Filter
