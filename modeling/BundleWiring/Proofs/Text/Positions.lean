import Mathlib.Data.List.Basic

/-!
# Texts by Byte Positions

A text can be searched and cut at positions that count the bytes of its UTF-8 form. A part between
two positions exists only if both are boundaries of characters in the text, which is a condition on
numbers that nothing else enforces. This module proves:

- `slice?_eq_some_iff`: a part between two positions is what two cuts of the text leave between
  them;
- `offsetOf?_append_cons`: the position of a character is the number of bytes before its first
  occurrence.
-/

namespace BundleWiring.Text

/-- The number of bytes of a text in UTF-8. -/
def byteSize (s : List Char) : Nat :=
  (String.ofList s).utf8ByteSize

/-- The part of a text between two byte positions. There is none unless the positions are in order
and each of them is a boundary of a character in the text. -/
def slice? (s : String) (start stop : Nat) : Option String :=
  if h : (⟨start⟩ : String.Pos.Raw).IsValid s ∧ (⟨stop⟩ : String.Pos.Raw).IsValid s ∧
      start ≤ stop then
    some (s.slice (s.pos ⟨start⟩ h.1) (s.pos ⟨stop⟩ h.2.1) h.2.2).copy
  else
    none

/-- The byte position at which a piece first occurs in a text. -/
def offsetOf? (piece : List Char) : List Char → Option Nat
  | [] => if piece.isEmpty then some 0 else none
  | c :: s =>
    if piece.isPrefixOf (c :: s) then some 0 else (byteSize [c] + ·) <$> offsetOf? piece s

@[simp]
theorem byteSize_nil : byteSize [] = 0 :=
  rfl

/-- A joined text has as many bytes as its parts together. -/
theorem byteSize_append (s t : List Char) : byteSize (s ++ t) = byteSize s + byteSize t := by
  rw [byteSize, String.ofList_append, String.utf8ByteSize_append]
  rfl

/-- The bytes of a string are those of its characters. -/
theorem byteSize_toList (s : String) : byteSize s.toList = s.utf8ByteSize := by
  rw [byteSize, String.ofList_toList]

/-- Only the empty text has no bytes. -/
theorem byteSize_eq_zero_iff {s : List Char} : byteSize s = 0 ↔ s = [] := by
  rw [byteSize, String.utf8ByteSize_eq_zero_iff, String.ofList_eq_empty_iff]

/-- A part between two byte positions is what two cuts of the text leave between them. -/
theorem slice?_eq_some_iff {s t : String} {start stop : Nat} :
    slice? s start stop = some t ↔ ∃ pre post, s = pre ++ t ++ post ∧
      start = pre.utf8ByteSize ∧ stop = (pre ++ t).utf8ByteSize := by
  unfold slice?
  constructor
  · intro h
    split at h
    next hvalid =>
      obtain ⟨pre, post, hstart, hstop⟩ :=
        String.copy_slice_eq_iff_splits.mp ⟨hvalid.2.2, Option.some.inj h⟩
      refine ⟨pre, post, hstop.eq_append, ?_, ?_⟩
      · exact congrArg String.Pos.Raw.byteIdx hstart.offset_eq_rawEndPos
      · exact congrArg String.Pos.Raw.byteIdx hstop.offset_eq_rawEndPos
    next => cases h
  · rintro ⟨pre, post, rfl, rfl, rfl⟩
    -- Both cuts are at boundaries, because each of them ends a text that stands in front.
    have hstart : (⟨pre.utf8ByteSize⟩ : String.Pos.Raw).IsValid (pre ++ t ++ post) :=
      (String.Pos.Raw.isValid_rawEndPos.append_right t).append_right post
    have hstop : (⟨(pre ++ t).utf8ByteSize⟩ : String.Pos.Raw).IsValid (pre ++ t ++ post) :=
      String.Pos.Raw.isValid_rawEndPos.append_right post
    have hle : pre.utf8ByteSize ≤ (pre ++ t).utf8ByteSize := by simp
    rw [dif_pos ⟨hstart, hstop, hle⟩]
    have hfirst : ((pre ++ t ++ post).pos _ hstart).Splits pre (t ++ post) :=
      ⟨String.append_assoc, rfl⟩
    have hlast : ((pre ++ t ++ post).pos _ hstop).Splits (pre ++ t) post := ⟨rfl, rfl⟩
    obtain ⟨_, hcopy⟩ := String.copy_slice_eq_iff_splits.mpr ⟨pre, post, hfirst, hlast⟩
    exact congrArg some hcopy

/-- The part behind some text is found at the number of bytes of that text. -/
theorem slice?_ofList (pre part post : List Char) :
    slice? (String.ofList (pre ++ part ++ post)) (byteSize pre) (byteSize pre + byteSize part) =
      some (String.ofList part) := by
  rw [slice?_eq_some_iff, ← byteSize_append]
  refine ⟨String.ofList pre, String.ofList post, ?_, rfl, ?_⟩
  · rw [String.ofList_append, String.ofList_append]
  · rw [← String.ofList_append]
    rfl

/-- A character that does not occur has no position. -/
theorem offsetOf?_of_notMem {c : Char} {s : List Char} (h : c ∉ s) : offsetOf? [c] s = none := by
  induction s with
  | nil => rfl
  | cons d s ih =>
    obtain ⟨hd, hs⟩ := not_or.mp (List.mem_cons.not.mp h)
    simp [offsetOf?, hd, ih hs]

/-- The position of a character is the number of bytes before its first occurrence. -/
theorem offsetOf?_append_cons {c : Char} {pre : List Char} (h : c ∉ pre) (post : List Char) :
    offsetOf? [c] (pre ++ c :: post) = some (byteSize pre) := by
  induction pre with
  | nil => simp [offsetOf?]
  | cons d pre ih =>
    obtain ⟨hd, hpre⟩ := not_or.mp (List.mem_cons.not.mp h)
    simp [offsetOf?, hd, ih hpre, ← byteSize_append]

end BundleWiring.Text
