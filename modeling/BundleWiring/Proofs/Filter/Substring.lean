import BundleWiring.Filter.Wildcard
import BundleWiring.Proofs.Text.Positions
import Mathlib.Data.List.Infix

/-!
# Matching Pieces

A value is matched greedily: each piece is taken where it first occurs behind the piece before. A
later occurrence would leave less of the value for the pieces that follow, and what is left over
becomes a gap, so nothing is lost by taking the first one. The same matching on byte positions never
cuts the value inside a character. This module proves:

- `exists_afterFirst?_append`: the first occurrence of a piece leaves at least what any other does;
- `endsWithPieces_iff_spread`: greedy matching finds the pieces if they are there at all;
- `matchAt?_eq_some`: matching on byte positions cuts at boundaries of characters, and gives the
  same;
- `compareSubstring_iff_exists_gaps`: a value matches if it consists of the pieces and gaps.
-/

namespace BundleWiring.Filter

open Text

variable {piece first value : List Char} {pieces others : List (List Char)}

/-- Pieces spread over a text: each of them comes behind a gap, and the last one ends the text. -/
inductive Spread : List (List Char) → List Char → Prop where
  /-- No pieces fill no text. -/
  | nil : Spread [] []
  /-- One more piece comes first, behind a gap. -/
  | cons (gap : List Char) {piece rest : List Char} {pieces : List (List Char)} :
    Spread pieces rest → Spread (piece :: pieces) (gap ++ piece ++ rest)

/-! ### Gaps -/

/-- The first of several pieces comes behind a gap, and the others are spread over the rest. -/
theorem spread_cons_iff : Spread (piece :: pieces) value ↔
    ∃ gap rest, value = gap ++ piece ++ rest ∧ Spread pieces rest := by
  constructor
  · intro h
    cases h with
    | cons gap h => exact ⟨gap, _, rfl, h⟩
  · rintro ⟨gap, rest, rfl, h⟩
    exact h.cons gap

/-- No pieces are spread over the empty text only. -/
theorem spread_nil_iff : Spread [] value ↔ value = [] := by
  constructor
  · rintro ⟨⟩
    rfl
  · rintro rfl
    exact .nil

/-- What comes before a text with pieces is part of the first gap. -/
theorem Spread.append_left (h : Spread pieces value) (hne : pieces ≠ []) (gap : List Char) :
    Spread pieces (gap ++ value) := by
  cases h with
  | nil => exact absurd rfl hne
  | cons other h =>
    rw [← List.append_assoc, ← List.append_assoc]
    exact h.cons (gap ++ other)

/-- The gaps of a text over which pieces are spread, one for each piece. -/
theorem spread_iff_exists_gaps {pieces : List String} : Spread (pieces.map String.toList) value ↔
    ∃ gaps : List String, gaps.length = pieces.length ∧
      value = (String.join (gaps.zipWith (· ++ ·) pieces)).toList := by
  induction pieces generalizing value with
  | nil => simp [spread_nil_iff]
  | cons piece pieces ih =>
    rw [List.map_cons, spread_cons_iff]
    constructor
    · rintro ⟨gap, rest, rfl, hrest⟩
      obtain ⟨gaps, hlength, rfl⟩ := ih.mp hrest
      exact ⟨String.ofList gap :: gaps, by simp [hlength], by simp⟩
    · rintro ⟨gaps, hlength, rfl⟩
      obtain ⟨gap, gaps, rfl⟩ := List.exists_cons_of_length_eq_add_one hlength
      refine ⟨gap.toList, _, ?_, ih.mpr ⟨gaps, by simpa using hlength, rfl⟩⟩
      rw [List.zipWith_cons_cons, String.join_cons, String.toList_append, String.toList_append]

/-! ### The first occurrence of a piece -/

/-- What is left behind a piece is the end of the value, with a gap and the piece before it. -/
theorem eq_append_of_afterFirst? {rest : List Char} (h : afterFirst? piece value = some rest) :
    ∃ gap, value = gap ++ piece ++ rest := by
  induction value with
  | nil =>
    rw [afterFirst?] at h
    split at h
    next hempty =>
      obtain rfl : [] = rest := Option.some.inj h
      exact ⟨[], by simpa using (List.isEmpty_iff.mp hempty).symm⟩
    next => cases h
  | cons c s ih =>
    rw [afterFirst?] at h
    split at h
    -- The first occurrence is here, or it is behind the next character.
    next hstarts =>
      obtain rfl : (c :: s).drop piece.length = rest := Option.some.inj h
      exact ⟨[], List.prefix_append_drop (List.isPrefixOf_iff_prefix.mp hstarts)⟩
    next =>
      obtain ⟨gap, rfl⟩ := ih h
      exact ⟨c :: gap, rfl⟩

/-- The first occurrence of a piece leaves at least what any other occurrence does. -/
theorem exists_afterFirst?_append (gap piece rest : List Char) :
    ∃ more, afterFirst? piece (gap ++ piece ++ rest) = some (more ++ rest) := by
  induction gap with
  | nil =>
    refine ⟨[], ?_⟩
    rw [List.nil_append, List.nil_append]
    cases h : piece ++ rest with
    | nil =>
      obtain ⟨rfl, rfl⟩ := List.append_eq_nil_iff.mp h
      rfl
    | cons c s =>
      rw [afterFirst?, ← h, if_pos (List.isPrefixOf_iff_prefix.mpr (List.prefix_append ..)),
        List.drop_left]
  | cons c gap ih =>
    rw [List.cons_append, List.cons_append, afterFirst?]
    split
    next =>
      -- The piece occurs already here, so it ends no later than the other occurrence.
      have hle : piece.length ≤ (c :: gap ++ piece).length := by
        rw [List.length_append]
        exact Nat.le_add_left ..
      refine ⟨(c :: gap ++ piece).drop piece.length, congrArg some ?_⟩
      exact List.drop_append_of_le_length hle
    next => exact ih

/-! ### Greedy matching -/

/-- Matching that takes each piece where it first occurs finds the pieces if they are there. -/
theorem endsWithPieces_iff_spread (hne : pieces ≠ []) (value : List Char) :
    endsWithPieces value pieces = true ↔ Spread pieces value := by
  induction pieces generalizing value with
  | nil => exact absurd rfl hne
  | cons piece pieces ih =>
    rw [spread_cons_iff]
    cases pieces with
    | nil =>
      -- The last piece ends the value, and everything before it is the gap.
      simp only [endsWithPieces, List.isSuffixOf_iff_suffix, spread_nil_iff]
      constructor
      · rintro ⟨gap, rfl⟩
        exact ⟨gap, [], by rw [List.append_nil], rfl⟩
      · rintro ⟨gap, rest, rfl, rfl⟩
        exact ⟨gap, by rw [List.append_nil]⟩
    | cons second others =>
      have hne : second :: others ≠ [] := List.cons_ne_nil second others
      rw [endsWithPieces]
      constructor
      · intro h
        split at h
        next rest hrest =>
          obtain ⟨gap, rfl⟩ := eq_append_of_afterFirst? hrest
          exact ⟨gap, rest, rfl, (ih hne rest).mp h⟩
        next => cases h
      · rintro ⟨gap, rest, rfl, hrest⟩
        -- Behind the first occurrence there is at least as much, and the rest of it is a gap.
        obtain ⟨more, hmore⟩ := exists_afterFirst?_append gap piece rest
        rw [hmore]
        exact (ih hne _).mpr (hrest.append_left hne more)
      · exact hne

/-- A value matches pieces if it starts with the first one and the others are spread over what
follows. -/
theorem matchesPieces_iff_spread : matchesPieces value (first :: others) = true ↔
    ∃ rest, value = first ++ rest ∧ Spread others rest := by
  cases others with
  | nil => simp [matchesPieces, spread_nil_iff]
  | cons second others =>
    rw [matchesPieces, Bool.and_eq_true, List.isPrefixOf_iff_prefix,
      endsWithPieces_iff_spread (List.cons_ne_nil second others)]
    constructor
    · rintro ⟨⟨rest, rfl⟩, h⟩
      rw [List.drop_left] at h
      exact ⟨rest, rfl, h⟩
    · rintro ⟨rest, rfl, h⟩
      exact ⟨List.prefix_append .., by rwa [List.drop_left]⟩
    · exact List.cons_ne_nil second others

/-! ### Matching on byte positions -/

/-- Matches the pieces behind a byte position of a value. A piece is searched for in the slice from
the position on, and only the last one in the value as a whole. There is no answer if a slice is
asked for that starts outside the value or inside a character. -/
def matchFrom? (value : String) : Nat → List String → Option Bool
  | _, [] => some true
  | index, [last] =>
    some (value.endsWith last && decide (index + last.utf8ByteSize ≤ value.utf8ByteSize))
  | index, piece :: pieces => do
    let rest ← slice? value index value.utf8ByteSize
    match offsetOf? piece.toList rest.toList with
    | some offset => matchFrom? value (index + offset + piece.utf8ByteSize) pieces
    | none => some false

/-- Matches pieces on byte positions. There is no answer if the value is cut elsewhere than at a
boundary of a character. -/
def matchAt? (value : String) : List String → Option Bool
  | [] => some true
  | [piece] => some (value == piece)
  | first :: pieces =>
    if value.startsWith first then matchFrom? value first.utf8ByteSize pieces else some false

/-- A piece is found at the byte position behind the gap before its first occurrence. -/
theorem offsetOf?_eq_elim_afterFirst? (piece value : List Char) :
    (offsetOf? piece value = none ∧ afterFirst? piece value = none) ∨
      ∃ gap rest, value = gap ++ piece ++ rest ∧ offsetOf? piece value = some (byteSize gap) ∧
        afterFirst? piece value = some rest := by
  induction value with
  | nil =>
    rw [offsetOf?, afterFirst?]
    split
    next hempty => exact .inr ⟨[], [], by simpa using (List.isEmpty_iff.mp hempty).symm, rfl, rfl⟩
    next => exact .inl ⟨rfl, rfl⟩
  | cons c s ih =>
    rw [offsetOf?, afterFirst?]
    -- The piece starts here, or the gap before it starts with this character.
    split
    next hstarts =>
      refine .inr ⟨[], (c :: s).drop piece.length, ?_, rfl, rfl⟩
      exact List.prefix_append_drop (List.isPrefixOf_iff_prefix.mp hstarts)
    next =>
      obtain ⟨hoffset, hafter⟩ | ⟨gap, rest, rfl, hoffset, hafter⟩ := ih
      · exact .inl ⟨by rw [hoffset]; rfl, hafter⟩
      · refine .inr ⟨c :: gap, rest, rfl, ?_, hafter⟩
        rw [hoffset]
        exact congrArg some (byteSize_append [c] gap).symm

/-- What ends a value and fits behind a cut is what ends the text behind the cut. -/
theorem isSuffix_append_and_byteSize_le_iff {pre rest last : List Char} :
    last <:+ pre ++ rest ∧ byteSize pre + byteSize last ≤ byteSize (pre ++ rest) ↔
      last <:+ rest := by
  rw [byteSize_append, Nat.add_le_add_iff_left]
  constructor
  · rintro ⟨hlast, hsize⟩
    rcases List.suffix_or_suffix_of_suffix hlast (List.suffix_append pre rest) with h | ⟨more, rfl⟩
    · exact h
    · -- Nothing but the rest itself is a longer end that does not have more bytes.
      rw [byteSize_append] at hsize
      obtain rfl : more = [] := byteSize_eq_zero_iff.mp (by omega)
      exact List.suffix_rfl
  · rintro ⟨gap, rfl⟩
    exact ⟨⟨pre ++ gap, List.append_assoc ..⟩, by rw [byteSize_append]; omega⟩

/-- Behind a cut, matching on byte positions is matching of what follows the cut. -/
theorem matchFrom?_eq_some (pre rest : String) (pieces : List String) :
    matchFrom? (pre ++ rest) pre.utf8ByteSize pieces =
      some (endsWithPieces rest.toList (pieces.map String.toList)) := by
  induction pieces generalizing pre rest with
  | nil => rfl
  | cons piece pieces ih =>
    cases pieces with
    | nil =>
      have hend : (pre ++ rest).endsWith piece = true ↔
          piece.toList <:+ pre.toList ++ rest.toList := by
        show (pre ++ rest).toSlice.endsWith piece = true ↔ _
        rw [String.Slice.endsWith_string_iff, String.copy_toSlice, String.toList_append]
      have hsize : pre.utf8ByteSize + piece.utf8ByteSize ≤ (pre ++ rest).utf8ByteSize ↔
          byteSize pre.toList + byteSize piece.toList ≤ byteSize (pre.toList ++ rest.toList) := by
        rw [← String.toList_append, byteSize_toList, byteSize_toList, byteSize_toList]
      rw [matchFrom?, List.map_singleton, endsWithPieces, Option.some.injEq, Bool.eq_iff_iff,
        Bool.and_eq_true, decide_eq_true_iff, List.isSuffixOf_iff_suffix, hend, hsize,
        isSuffix_append_and_byteSize_le_iff]
    | cons second others =>
      -- The cut behind the piece before is at the boundary of a character.
      have hslice : slice? (pre ++ rest) pre.utf8ByteSize (pre ++ rest).utf8ByteSize = some rest :=
        slice?_eq_some_iff.mpr ⟨pre, "", by rw [String.append_empty], rfl, rfl⟩
      have hpieces : (second :: others).map String.toList ≠ [] := List.cons_ne_nil _ _
      rw [matchFrom?, hslice, Option.bind_eq_bind, Option.bind_some, List.map_cons, endsWithPieces]
      · obtain ⟨hoffset, hafter⟩ | ⟨gap, next, hrest, hoffset, hafter⟩ :=
          offsetOf?_eq_elim_afterFirst? piece.toList rest.toList
        · rw [hoffset, hafter]
        · rw [hoffset, hafter]
          -- The next cut is behind this piece.
          have hvalue : pre ++ rest = pre ++ String.ofList gap ++ piece ++ String.ofList next := by
            rw [← String.toList_inj]
            simp [hrest]
          have hindex : pre.utf8ByteSize + byteSize gap + piece.utf8ByteSize =
              (pre ++ String.ofList gap ++ piece).utf8ByteSize := by
            rw [String.utf8ByteSize_append, String.utf8ByteSize_append, byteSize]
          have hnext := ih (pre ++ String.ofList gap ++ piece) (String.ofList next)
          rwa [← hvalue, ← hindex, String.toList_ofList] at hnext
      · exact hpieces
      · exact List.cons_ne_nil second others

/-- Matching on byte positions cuts a value at boundaries of characters only, and gives the same. -/
theorem matchAt?_eq_some (value : String) (pieces : List String) :
    matchAt? value pieces = some (compareSubstring value pieces) := by
  match pieces with
  | [] => rfl
  | [piece] =>
    have hbeq : (value == piece) = (value.toList == piece.toList) := by
      rw [Bool.eq_iff_iff, beq_iff_eq, beq_iff_eq, String.toList_inj]
    rw [matchAt?, hbeq]
    rfl
  | first :: second :: others =>
    have hne : (second :: others).map String.toList ≠ [] := List.cons_ne_nil _ _
    rw [matchAt?, compareSubstring, List.map_cons, matchesPieces]
    · split
      -- The value is cut where its first piece ends, which is a boundary.
      next hstarts =>
        obtain ⟨rest, hrest⟩ := String.startsWith_string_iff.mp hstarts
        obtain rfl : first ++ String.ofList rest = value := by
          rw [← String.toList_inj, String.toList_append, String.toList_ofList, hrest]
        rw [matchFrom?_eq_some, String.toList_append, List.drop_left,
          List.isPrefixOf_iff_prefix.mpr (List.prefix_append ..), Bool.true_and]
      next hstarts =>
        have hnone : first.toList.isPrefixOf value.toList = false := by
          rw [Bool.eq_false_iff, ne_eq, List.isPrefixOf_iff_prefix]
          exact fun h => hstarts (String.startsWith_string_iff.mpr h)
        rw [hnone, Bool.false_and]
    · exact hne
    · exact List.cons_ne_nil second others

/-! ### Values that consist of pieces and gaps -/

/-- A value matches pieces exactly if it consists of them with gaps in between, a single piece if it
is the piece, and no matching ever cuts the value inside a character. -/
theorem compareSubstring_iff_exists_gaps (value first : String) (others : List String) :
    (compareSubstring value (first :: others) = true ↔
      ∃ gaps : List String, gaps.length = others.length ∧
        value = first ++ String.join (gaps.zipWith (· ++ ·) others)) ∧
    (compareSubstring value [first] = true ↔ value = first) ∧
    matchAt? value (first :: others) = some (compareSubstring value (first :: others)) := by
  refine ⟨?_, ?_, matchAt?_eq_some value (first :: others)⟩
  · rw [compareSubstring, List.map_cons, matchesPieces_iff_spread]
    simp only [spread_iff_exists_gaps]
    constructor
    · rintro ⟨rest, hvalue, gaps, hlength, rfl⟩
      refine ⟨gaps, hlength, ?_⟩
      rw [← String.toList_inj, hvalue, String.toList_append]
    · rintro ⟨gaps, hlength, rfl⟩
      exact ⟨_, String.toList_append, gaps, hlength, rfl⟩
  · simp [compareSubstring, matchesPieces, String.toList_inj]

end BundleWiring.Filter
