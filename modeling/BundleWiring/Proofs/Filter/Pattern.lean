import BundleWiring.Proofs.Filter.OfAttributes
import BundleWiring.Proofs.Filter.RoundTrip
import BundleWiring.Proofs.Filter.Substring
import BundleWiring.Proofs.Text.Delimited

/-!
# Patterns

The operand of an equality describes texts: a literal character stands for itself and a star for any
text. The condition that the operand becomes, an equality, a test for presence or a pattern of
pieces, holds of a text exactly if the operand describes it. The pieces are also found in one pass
over the operand, with a mark for a star in front of all pieces and one for a star at the end. This
module proves:

- `written_iff`: the signs that are read from an operand are those that are written in it;
- `describes_iff_spread`: what an operand describes, by the texts between its stars;
- `spread_collapse_iff`: neighbouring stars count as one;
- `accepts_ofPieces`: a condition for pieces is a match with them, whatever its kind is;
- `cutAtStars_eq_pieces`: one pass over an operand finds its pieces;
- `accepts_ofPieces_iff_describes`: the condition for an operand holds of what the operand
  describes.
-/

namespace BundleWiring.Filter

variable {ss : List Sign} {s : List Char}

/-! ### The signs of an operand -/

/-- How signs are written. A backslash escapes the next character, and one at the very end is
dropped. -/
inductive Written : List Char → List Sign → Prop where
  /-- No characters are no signs. -/
  | nil : Written [] []
  /-- A backslash at the very end is no sign. -/
  | dropped : Written ['\\'] []
  /-- An escaped character is literal, whatever it is. -/
  | escaped (c : Char) {raw : List Char} {ss : List Sign} :
    Written raw ss → Written ('\\' :: c :: raw) (.literal c :: ss)
  /-- A star that is not escaped is a star. -/
  | star {raw : List Char} {ss : List Sign} : Written raw ss → Written ('*' :: raw) (.star :: ss)
  /-- Any other character is literal. -/
  | plain {c : Char} {raw : List Char} {ss : List Sign} :
    c ≠ '\\' → c ≠ '*' → Written raw ss → Written (c :: raw) (.literal c :: ss)

/-- Every operand has signs, and no others than those that are read from it. -/
theorem written_iff {raw : List Char} : Written raw ss ↔ ss = signs raw := by
  constructor
  · intro h
    induction h with
    | nil => rfl
    | dropped => rfl
    | escaped c _ ih => rw [signs, ih]
    | star _ ih => rw [signs, ih]
    | plain hescape hstar _ ih => rw [signs_cons_of_ne hstar hescape, ih]
  · rintro rfl
    fun_induction signs raw with
    | case1 => exact .nil
    | case2 => exact .dropped
    | case3 c s ih => exact ih.escaped c
    | case4 s ih => exact ih.star
    | case5 c s hlast hescape hstar ih =>
      exact ih.plain (Text.ne_backslash hlast hescape) hstar

/-! ### What an operand describes -/

/-- The texts that the signs of an operand describe. -/
inductive Describes : List Sign → List Char → Prop where
  /-- No signs describe the empty text. -/
  | nil : Describes [] []
  /-- A literal character describes itself. -/
  | literal (c : Char) {ss : List Sign} {s : List Char} :
    Describes ss s → Describes (.literal c :: ss) (c :: s)
  /-- A star describes any text. -/
  | star (gap : List Char) {ss : List Sign} {s : List Char} :
    Describes ss s → Describes (.star :: ss) (gap ++ s)

/-- Without signs only the empty text is described. -/
theorem describes_nil_iff : Describes [] s ↔ s = [] := by
  constructor
  · rintro ⟨⟩
    rfl
  · rintro rfl
    exact .nil

/-- A literal character in front describes itself. -/
theorem describes_literal_iff {c : Char} :
    Describes (.literal c :: ss) s ↔ ∃ rest, s = c :: rest ∧ Describes ss rest := by
  constructor
  · intro h
    cases h with
    | literal _ h => exact ⟨_, rfl, h⟩
  · rintro ⟨rest, rfl, h⟩
    exact h.literal c

/-- A star in front describes any gap. -/
theorem describes_star_iff :
    Describes (.star :: ss) s ↔ ∃ gap rest, s = gap ++ rest ∧ Describes ss rest := by
  constructor
  · intro h
    cases h with
    | star gap h => exact ⟨gap, _, rfl, h⟩
  · rintro ⟨gap, rest, rfl, h⟩
    exact h.star gap

/-- An operand describes the texts that start with what comes before its first star and over the
rest of which the texts behind its stars are spread. -/
theorem describes_iff_spread : Describes ss s ↔
    ∃ rest, s = (splitStars ss).1 ++ rest ∧ Spread (splitStars ss).2 rest := by
  induction ss generalizing s with
  | nil => simp [describes_nil_iff, splitStars, spread_nil_iff]
  | cons sign ss ih =>
    -- The first sign belongs to the text in front, or it is the star that ends this text.
    cases sign with
    | literal c =>
      rw [describes_literal_iff, splitStars]
      constructor
      · rintro ⟨t, rfl, h⟩
        obtain ⟨rest, rfl, hrest⟩ := ih.mp h
        exact ⟨rest, rfl, hrest⟩
      · rintro ⟨rest, rfl, hrest⟩
        exact ⟨_, rfl, ih.mpr ⟨rest, rfl, hrest⟩⟩
    | star =>
      rw [describes_star_iff, splitStars]
      constructor
      · rintro ⟨gap, t, rfl, h⟩
        obtain ⟨rest, rfl, hrest⟩ := ih.mp h
        exact ⟨_, (List.append_assoc ..).symm, hrest.cons gap⟩
      · rintro ⟨t, rfl, h⟩
        obtain ⟨gap, rest, rfl, hrest⟩ := spread_cons_iff.mp h
        exact ⟨gap, _, List.append_assoc .., ih.mpr ⟨rest, rfl, hrest⟩⟩

/-- An empty piece in front of others makes no difference. -/
theorem spread_nil_cons_iff {pieces : List (List Char)} (hne : pieces ≠ []) :
    Spread ([] :: pieces) s ↔ Spread pieces s := by
  rw [spread_cons_iff]
  constructor
  · rintro ⟨gap, rest, rfl, h⟩
    rw [List.append_nil]
    exact h.append_left hne gap
  · intro h
    exact ⟨[], s, rfl, h⟩

/-- Empty pieces make no difference, except at the end. -/
theorem spread_collapse_iff {others : List (List Char)} :
    Spread (others.dropLast.filter (!·.isEmpty) ++ others.getLast?.toList) s ↔ Spread others s := by
  induction others generalizing s with
  | nil => rfl
  | cons piece others ih =>
    cases others with
    | nil => rfl
    | cons second others =>
      rw [List.dropLast_cons_cons, List.getLast?_cons_cons]
      -- An empty piece is left out, because it is not the last one.
      cases piece with
      | nil =>
        rw [spread_nil_cons_iff (List.cons_ne_nil second others), ← ih]
        rfl
      | cons c piece =>
        show Spread ((c :: piece) :: _) s ↔ _
        rw [spread_cons_iff, spread_cons_iff]
        exact exists_congr fun gap => exists_congr fun rest => and_congr_right fun _ => ih

/-- An operand describes the texts that match its pieces. -/
theorem describes_iff_matchesPieces {raw : List Char} :
    Describes (signs raw) s ↔ matchesPieces s (pieces raw) = true := by
  rw [pieces_eq, matchesPieces_iff_spread, describes_iff_spread]
  exact exists_congr fun rest => and_congr_right fun _ => spread_collapse_iff.symm

/-! ### One pass over an operand -/

/-- Where one pass over an operand stands. -/
structure Pass where
  /-- The pieces that stars have ended. -/
  pieces : List (List Char)
  /-- The piece that the pass is in. -/
  piece : List Char
  /-- Whether a star came before all pieces. -/
  starFirst : Bool
  /-- Whether nothing came after the last star. -/
  starLast : Bool
  /-- Whether the last character was a backslash that takes the next one literally. -/
  escaped : Bool

namespace Pass

/-- The pass before the first character. -/
def start : Pass :=
  { pieces := [], piece := [], starFirst := false, starLast := false, escaped := false }

/-- The pieces with the one that the pass is in, unless it is empty. -/
def ended (p : Pass) : List (List Char) :=
  if p.piece.isEmpty then p.pieces else p.pieces ++ [p.piece]

/-- A literal character continues the piece. -/
def literal (p : Pass) (c : Char) : Pass :=
  { p with piece := p.piece ++ [c], starLast := false, escaped := false }

/-- A star ends the piece. -/
def star (p : Pass) : Pass :=
  { pieces := p.ended
    piece := []
    starFirst := p.starFirst || (p.pieces.isEmpty && p.piece.isEmpty)
    starLast := true
    escaped := false }

/-- What the next character of the operand does. -/
def step (p : Pass) (c : Char) : Pass :=
  if p.escaped then p.literal c
  else if c = '\\' then { p with escaped := true }
  else if c = '*' then p.star
  else p.literal c

/-- The pieces after the last character, with empty ones for stars at the ends. -/
def result (p : Pass) : List (List Char) :=
  let last := if p.starLast then p.ended ++ [[]] else p.ended
  let pieces := if p.starFirst then [] :: last else last
  if pieces.isEmpty then [[]] else pieces

/-- What the next sign of the operand does. -/
def read (p : Pass) : Sign → Pass
  | .literal c => p.literal c
  | .star => p.star

/-- The pass behind texts that are separated by stars, the last of which is not ended yet. -/
def behind (ended : List (List Char)) (last : List Char) : Pass :=
  { pieces := ended.filter (!·.isEmpty)
    piece := last
    starFirst := ended.head?.any (·.isEmpty)
    starLast := last.isEmpty && !ended.isEmpty
    escaped := false }

end Pass

/-- The pieces of an operand, found in one pass. -/
def cutAtStars (raw : List Char) : List (List Char) :=
  (raw.foldl Pass.step .start).result

/-- The texts that the stars of an operand separate. -/
def segments (ss : List Sign) : List (List Char) :=
  (splitStars ss).1 :: (splitStars ss).2

/-- A literal character in front belongs to the first text. -/
theorem segments_literal_cons (c : Char) (ss : List Sign) :
    segments (.literal c :: ss) = (c :: (splitStars ss).1) :: (splitStars ss).2 :=
  rfl

/-- A star in front ends an empty text. -/
theorem segments_star_cons (ss : List Sign) : segments (.star :: ss) = [] :: segments ss :=
  rfl

/-- A star at the end starts one more text. -/
theorem segments_concat_star (ss : List Sign) : segments (ss ++ [.star]) = segments ss ++ [[]] := by
  induction ss with
  | nil => rfl
  | cons sign ss ih =>
    cases sign with
    | literal c =>
      obtain ⟨hfirst, hothers⟩ := List.cons_eq_cons.mp ih
      rw [List.cons_append, segments_literal_cons, hfirst, hothers]
      rfl
    | star => rw [List.cons_append, segments_star_cons, segments_star_cons, ih, List.cons_append]

/-- A literal character at the end belongs to the last text. -/
theorem segments_concat_literal {ended : List (List Char)} {last : List Char} (c : Char)
    (h : segments ss = ended ++ [last]) :
    segments (ss ++ [.literal c]) = ended ++ [last ++ [c]] := by
  induction ss generalizing ended last with
  | nil =>
    obtain ⟨rfl, rfl⟩ : ended = [] ∧ last = [] := by
      cases ended with
      | nil => simpa [segments, splitStars] using h.symm
      | cons text ended => simp [segments, splitStars] at h
    rfl
  | cons sign ss ih =>
    cases sign with
    | literal d =>
      rw [segments_literal_cons] at h
      rw [List.cons_append, segments_literal_cons]
      -- The character in front belongs to the first text, which may be the last one as well.
      cases ended with
      | nil =>
        obtain ⟨rfl, hothers⟩ := List.cons_eq_cons.mp h
        obtain ⟨hfirst, hothers⟩ :=
          List.cons_eq_cons.mp (@ih [] _ (congrArg ((splitStars ss).1 :: ·) hothers))
        rw [hfirst, hothers]
        rfl
      | cons text ended =>
        obtain ⟨rfl, hothers⟩ := List.cons_eq_cons.mp h
        obtain ⟨hfirst, hothers⟩ := List.cons_eq_cons.mp
          (@ih ((splitStars ss).1 :: ended) _ (congrArg ((splitStars ss).1 :: ·) hothers))
        rw [hfirst, hothers]
        rfl
    | star =>
      rw [segments_star_cons] at h
      rw [List.cons_append, segments_star_cons]
      cases ended with
      | nil => exact absurd (List.cons_eq_cons.mp h).2 (List.cons_ne_nil _ _)
      | cons text ended =>
        obtain ⟨rfl, hothers⟩ := List.cons_eq_cons.mp h
        rw [ih hothers]
        rfl

namespace Pass

/-- A star ends the last text. -/
theorem star_behind (ended : List (List Char)) (last : List Char) :
    (behind ended last).star = behind (ended ++ [last]) [] := by
  have hpieces : (behind ended last).ended = (ended ++ [last]).filter (!·.isEmpty) := by
    cases last <;> simp [Pass.ended, behind]
  -- If all texts before the last one are empty, then so is the first one.
  have hfirst : (ended.head?.any (·.isEmpty) ||
      ((ended.filter (!·.isEmpty)).isEmpty && last.isEmpty)) =
      (ended ++ [last]).head?.any (·.isEmpty) := by
    cases ended with
    | nil => simp
    | cons text ended => cases text <;> simp
  rw [star, hpieces]
  simp [behind, hfirst]

/-- A literal character is added to the text that is not ended yet. -/
theorem literal_behind (ended : List (List Char)) (last : List Char) (c : Char) :
    (behind ended last).literal c = behind ended (last ++ [c]) := by
  simp [behind, literal]

/-- Behind some signs, a pass has ended all texts but the last one. -/
theorem foldl_read (ss : List Sign) : ∃ ended last, segments ss = ended ++ [last] ∧
    ss.foldl read start = behind ended last := by
  induction ss using List.reverseRecOn with
  | nil => exact ⟨[], [], rfl, rfl⟩
  | append_singleton ss sign ih =>
    obtain ⟨ended, last, hsegments, hread⟩ := ih
    rw [List.foldl_concat, hread]
    cases sign with
    | literal c =>
      exact ⟨ended, _, segments_concat_literal c hsegments, literal_behind ended last c⟩
    | star =>
      refine ⟨ended ++ [last], [], ?_, star_behind ended last⟩
      rw [segments_concat_star, hsegments]

/-- A pass over the characters of an operand reads its signs. -/
theorem foldl_step_result {p : Pass} (h : p.escaped = false) (raw : List Char) :
    (raw.foldl step p).result = ((signs raw).foldl read p).result := by
  fun_induction signs raw generalizing p with
  | case1 => rfl
  | case2 =>
    -- A backslash at the very end waits for nothing.
    rw [List.foldl_cons, step, h]
    rfl
  | case3 c s ih =>
    have hliteral : (p.step '\\').step c = p.literal c := by simp [step, h, literal]
    rw [List.foldl_cons, List.foldl_cons, hliteral]
    exact ih rfl
  | case4 s ih =>
    have hstar : p.step '*' = p.star := by simp [step, h]
    rw [List.foldl_cons, hstar]
    exact ih rfl
  | case5 c s hlast hescape hstar ih =>
    have hbackslash : c ≠ '\\' := Text.ne_backslash hlast hescape
    have hliteral : p.step c = p.literal c := by
      rw [step, h, if_neg Bool.false_ne_true, if_neg hbackslash, if_neg hstar]
    rw [List.foldl_cons, hliteral]
    exact ih rfl

/-- A pass that came by no star gives a single piece. -/
theorem result_behind_nil (last : List Char) : (behind [] last).result = [last] := by
  cases last <;> rfl

/-- At the end, an empty piece stands for a star in front and one for a star behind. -/
theorem result_behind_cons (first last : List Char) (ended : List (List Char)) :
    (behind (first :: ended) last).result = first :: (ended.filter (!·.isEmpty) ++ [last]) := by
  cases first <;> cases last <;> simp [behind, result, Pass.ended]

end Pass

/-- One pass over an operand finds its pieces. -/
theorem cutAtStars_eq_pieces (raw : List Char) : cutAtStars raw = pieces raw := by
  rw [cutAtStars, Pass.foldl_step_result rfl, pieces_eq]
  obtain ⟨ended, last, hsegments, hread⟩ := Pass.foldl_read (signs raw)
  rw [hread]
  -- Without a star there is one piece. Otherwise the first and the last one stay, even if empty.
  cases ended with
  | nil =>
    obtain ⟨hfirst, hothers⟩ := List.cons_eq_cons.mp hsegments
    rw [Pass.result_behind_nil, hfirst, hothers]
    rfl
  | cons first ended =>
    rw [List.cons_append] at hsegments
    obtain ⟨hfirst, hothers⟩ := List.cons_eq_cons.mp hsegments
    rw [Pass.result_behind_cons, hfirst, hothers, List.dropLast_concat, List.getLast?_concat,
      Option.toList_some]

/-! ### The condition for an operand -/

/-- A condition for pieces is a match with them, whether it is an equality, a test for presence or a
pattern. -/
theorem accepts_ofPieces {m : Attributes} {name s : String} (hm : m.get? name = some (.str s))
    {ps : List String} (hne : ps ≠ []) :
    (ofPieces name ps).accepts m = compareSubstring s ps := by
  unfold ofPieces
  split
  · exact absurd rfl hne
  next piece =>
    rw [Bool.eq_iff_iff, accepts_eq_iff hm, compareSubstring, List.map_singleton, matchesPieces,
      beq_iff_eq, String.toList_inj]
    exact eq_comm
  next =>
    have hcontains : m.contains name = true := by rw [← Table.isSome_get?, hm, Option.isSome_some]
    rw [accepts, hcontains]
    simp [compareSubstring, matchesPieces, endsWithPieces]
  next => rw [accepts, hm, Option.any_some, AttrValue.consistsOf]

/-- There is nothing behind the first star exactly if there is no star. -/
theorem splitStars_snd_eq_nil_iff : (splitStars ss).2 = [] ↔ Sign.star ∉ ss := by
  induction ss with
  | nil => simp [splitStars]
  | cons sign ss ih => cases sign <;> simp [splitStars, ih]

/-- Without a star, all signs come before the first one. -/
theorem splitStars_fst_of_notMem (h : Sign.star ∉ ss) : (splitStars ss).1 = ss.map Sign.char := by
  induction ss with
  | nil => rfl
  | cons sign ss ih =>
    obtain ⟨hsign, hss⟩ := not_or.mp (List.mem_cons.not.mp h)
    cases sign with
    | literal c =>
      rw [splitStars, List.map_cons, ← ih hss]
      rfl
    | star => exact absurd rfl hsign

/-- An operand without stars that are not escaped is one piece, and what other comparisons read. -/
theorem piecesOf_of_notMem {raw : String} (h : Sign.star ∉ signs raw.toList) :
    piecesOf raw = [String.ofList (unescape raw.toList)] := by
  rw [piecesOf, pieces_eq, splitStars_snd_eq_nil_iff.mpr h, splitStars_fst_of_notMem h]
  rfl

/-- An operand is one piece exactly if none of its stars is a sign. -/
theorem exists_piecesOf_eq_singleton_iff {raw : String} :
    (∃ piece, piecesOf raw = [piece]) ↔ Sign.star ∉ signs raw.toList := by
  refine ⟨?_, fun h => ⟨_, piecesOf_of_notMem h⟩⟩
  rintro ⟨piece, hpiece⟩
  -- The text behind the last star is a piece of its own, even if it is empty.
  by_contra hstar
  have hothers : (splitStars (signs raw.toList)).2 ≠ [] := fun h =>
    absurd hstar (splitStars_snd_eq_nil_iff.mp h)
  rw [piecesOf, pieces_eq, List.getLast?_eq_getLast_of_ne_nil hothers] at hpiece
  simp at hpiece

/-- The condition for an operand holds of the texts that the operand describes. -/
theorem accepts_piecesOf_iff {m : Attributes} {name s : String} (hm : m.get? name = some (.str s))
    (raw : String) :
    (ofPieces name (piecesOf raw)).accepts m = true ↔ Describes (signs raw.toList) s.toList := by
  have hne : piecesOf raw ≠ [] := by
    rw [piecesOf, pieces_eq]
    exact List.cons_ne_nil _ _
  have hpieces : (piecesOf raw).map String.toList = pieces raw.toList := by
    rw [piecesOf, List.map_map]
    simp [Function.comp_def]
  rw [accepts_ofPieces hm hne, compareSubstring, hpieces, describes_iff_matchesPieces]

/-- The condition for an operand holds of the texts that the signs written in the operand describe.
The operand has one piece exactly if no star in it is unescaped, this piece is what other
comparisons read, and all pieces are found in one pass. -/
theorem accepts_ofPieces_iff_describes (name raw s : String) (m : Attributes)
    (hm : m.get? name = some (.str s)) :
    (∀ ss, Written raw.toList ss ↔ ss = signs raw.toList) ∧
    ((ofPieces name (piecesOf raw)).accepts m = true ↔ Describes (signs raw.toList) s.toList) ∧
    ((∃ piece, piecesOf raw = [piece]) ↔ Sign.star ∉ signs raw.toList) ∧
    (∀ piece, piecesOf raw = [piece] → piece = String.ofList (unescape raw.toList)) ∧
    piecesOf raw = (cutAtStars raw.toList).map String.ofList := by
  refine ⟨fun _ => written_iff, accepts_piecesOf_iff hm raw, exists_piecesOf_eq_singleton_iff,
    fun piece hpiece => ?_, ?_⟩
  · have hstar := exists_piecesOf_eq_singleton_iff.mp ⟨piece, hpiece⟩
    rw [piecesOf_of_notMem hstar] at hpiece
    exact (List.cons_eq_cons.mp hpiece).1.symm
  · rw [cutAtStars_eq_pieces, piecesOf]

/-- An escaped star is a literal one, next to a star that is not. -/
theorem accepts_ofPieces_escaped_star :
    (ofPieces "v" (piecesOf "a\\**c")).accepts (.ofList [("v", .str "a*bc")]) = true := by
  refine (accepts_ofPieces_iff_describes "v" "a\\**c" "a*bc" _ rfl).2.1.mpr ?_
  exact .literal 'a' (.literal '*' (.star ['b'] (.literal 'c' .nil)))

end BundleWiring.Filter
