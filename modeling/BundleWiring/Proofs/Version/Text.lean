import BundleWiring.Version.Range
import Mathlib.Data.List.DropRight
import Mathlib.Data.List.TakeDrop

/-!
# Written Versions

A version is written without blanks, its numbers without dots or leading signs, and its qualifier
without dots. So the parts of a written version are found again at its dots
(`splitOn_chars`), and reading it gives the version back (`parse?_text`). Blanks around a text make
no difference to the version or the range in it (`Version.parse?_trimText` and
`VersionRange.parse?_trimText`).
-/

namespace BundleWiring

open Text

/-- A text without blanks has none to trim. -/
theorem Text.trim_eq_self {s : List Char} (h : ∀ c ∈ s, isBlank c = false) : trim s = s := by
  have hstart : ∀ t : List Char, (∀ c ∈ t, isBlank c = false) → t.dropWhile isBlank = t := by
    intro t ht
    cases t with
    | nil => rfl
    | cons c t => exact List.dropWhile_cons_of_neg (by simpa using ht c (List.mem_cons_self ..))
  have hend : ∀ c ∈ s.reverse, isBlank c = false := fun c hc => h c (List.mem_reverse.mp hc)
  rw [trim, trimStart, trimEnd, hstart s h, hstart s.reverse hend, List.reverse_reverse]

/-- A text is trimmed once. -/
theorem Text.trim_trim (s : List Char) : trim (trim s) = trim s := by
  have hstart : trimStart (trim s) = trim s := by
    rw [trimStart, List.dropWhile_eq_self_iff]
    intro hpos
    have hinit : trim s <+: trimStart s := List.rdropWhile_prefix isBlank (trimStart s)
    rw [hinit.getElem hpos]
    exact List.dropWhile_get_zero_not isBlank s (Nat.lt_of_lt_of_le hpos hinit.length_le)
  show trimEnd (trimStart (trim s)) = trim s
  rw [hstart]
  exact List.rdropWhile_idempotent isBlank (trimStart s)

/-- A text without a character is not cut at it. -/
theorem Text.span_bne_of_notMem {c : Char} {s : List Char} (h : c ∉ s) :
    s.span (· != c) = (s, []) := by
  have hall : ∀ d ∈ s, (d != c) = true := fun d hd => bne_iff_ne.mpr fun heq => h (heq ▸ hd)
  rw [List.span_eq_takeWhile_dropWhile, List.takeWhile_eq_self_iff.mpr hall,
    List.dropWhile_eq_nil_iff.mpr hall]

/-- A text is cut at the first occurrence of a character. -/
theorem Text.span_bne_append_cons {c : Char} {s : List Char} (h : c ∉ s) (t : List Char) :
    (s ++ c :: t).span (· != c) = (s, c :: t) := by
  have hall : ∀ d ∈ s, (d != c) = true := fun d hd => bne_iff_ne.mpr fun heq => h (heq ▸ hd)
  rw [List.span_eq_takeWhile_dropWhile, List.takeWhile_append_of_pos hall,
    List.dropWhile_append_of_pos hall]
  simp

/-- The ASCII letters and digits, the underscore and the dash. -/
def IsWordChar (c : Char) : Prop :=
  ('A' ≤ c ∧ c ≤ 'Z') ∨ ('a' ≤ c ∧ c ≤ 'z') ∨ ('0' ≤ c ∧ c ≤ '9') ∨ c = '_' ∨ c = '-'

/-- The characters of a qualifier are those of words. -/
theorem isQualifierChar_iff {c : Char} : isQualifierChar c = true ↔ IsWordChar c := by
  have hchars : isQualifierChar c = (decide (c.val ≥ 'A'.val ∧ c.val ≤ 'Z'.val) ||
      (decide (c.val ≥ 'a'.val) && decide (c.val ≤ 'z'.val)) ||
      (decide (c.val ≥ '0'.val) && decide (c.val ≤ '9'.val)) || c == '_' || c == '-') := rfl
  simp only [hchars, IsWordChar, Char.le_def, Bool.or_eq_true, Bool.and_eq_true,
    decide_eq_true_eq, beq_iff_eq, ge_iff_le, or_assoc]

/-- Characters of qualifiers are between the dash and the letter `z`. -/
theorem toNat_of_isQualifierChar {c : Char} (h : isQualifierChar c = true) :
    0x2D ≤ c.toNat ∧ c.toNat ≤ 0x7A := by
  have hle {a b : Char} (h : a ≤ b) : a.toNat ≤ b.toNat := h
  rcases isQualifierChar_iff.mp h with ⟨hlow, hhigh⟩ | ⟨hlow, hhigh⟩ | ⟨hlow, hhigh⟩ | rfl | rfl
  · exact ⟨Nat.le_trans (by decide) (hle hlow), Nat.le_trans (hle hhigh) (by decide)⟩
  · exact ⟨Nat.le_trans (by decide) (hle hlow), Nat.le_trans (hle hhigh) (by decide)⟩
  · exact ⟨Nat.le_trans (by decide) (hle hlow), Nat.le_trans (hle hhigh) (by decide)⟩
  all_goals decide

/-- No character of a qualifier is blank. -/
theorem isBlank_eq_false_of_isQualifierChar {c : Char} (h : isQualifierChar c = true) :
    isBlank c = false := by
  have hbounds := toNat_of_isQualifierChar h
  simp only [isBlank, Bool.or_eq_false_iff, Bool.and_eq_false_iff, decide_eq_false_iff_not,
    beq_eq_false_iff_ne]
  omega

/-- A digit may stand in a qualifier. -/
theorem isQualifierChar_of_isDigit {c : Char} (h : c.isDigit = true) :
    isQualifierChar c = true := by
  rw [isQualifierChar, Char.isAlphanum, h, Bool.or_true, Bool.true_or, Bool.true_or]

/-- What joined texts hold, the separator or one of the texts holds. -/
theorem Text.mem_or_mem_of_mem_intercalate {sep : List Char} {texts : List (List Char)} {c : Char}
    (h : c ∈ sep.intercalate texts) : c ∈ sep ∨ ∃ t ∈ texts, c ∈ t := by
  induction texts with
  | nil => cases h
  | cons first others ih =>
    cases others with
    | nil =>
      rw [List.intercalate_singleton] at h
      exact .inr ⟨first, List.mem_cons_self .., h⟩
    | cons second others =>
      rw [List.intercalate_cons_cons, List.mem_append, List.mem_append] at h
      rcases h with (hfirst | hsep) | hothers
      · exact .inr ⟨first, List.mem_cons_self .., hfirst⟩
      · exact .inl hsep
      · rcases ih hothers with hsep | ⟨t, ht, hc⟩
        · exact .inl hsep
        · exact .inr ⟨t, List.mem_cons_of_mem _ ht, hc⟩

namespace Version

/-- A number is read back from its digits. -/
theorem number?_toDigits (n : UInt32) : number? (Nat.toDigits 10 n.toNat) = some n := by
  have hdigits : (Nat.toDigits 10 n.toNat).all Char.isDigit = true :=
    List.all_eq_true.mpr fun c hc => Nat.isDigit_of_mem_toDigits (by decide) (by decide) hc
  have hne : (Nat.toDigits 10 n.toNat).isEmpty = false := by
    rw [List.isEmpty_eq_false_iff]
    exact Nat.toDigits_ne_nil
  rw [number?, hne, hdigits, if_neg (by decide), Nat.ofDigitChars_ten_toDigits]
  simp only [if_pos n.toNat_lt_size, UInt32.ofNat_toNat]

/-- The texts between the dots of a written version. -/
def parts (v : Version) : List (List Char) :=
  [v.major, v.minor, v.micro].map (Nat.toDigits 10 ·.toNat) ++
    if v.qualifier.toList.isEmpty then [] else [v.qualifier.toList]

/-- A version is written as its parts with dots between them. -/
theorem chars_eq_intercalate (v : Version) : v.chars = ['.'].intercalate v.parts := by
  rw [chars, parts]
  split <;> simp [numbersText, List.intercalate]

/-- The parts of a version consist of characters that may stand in a qualifier. -/
theorem isQualifierChar_of_mem_parts {v : Version} {part : List Char} (hpart : part ∈ v.parts)
    {c : Char} (hc : c ∈ part) : isQualifierChar c = true := by
  rcases List.mem_append.mp hpart with hnumber | hqualifier
  · obtain ⟨n, -, rfl⟩ := List.mem_map.mp hnumber
    exact isQualifierChar_of_isDigit (Nat.isDigit_of_mem_toDigits (by decide) (by decide) hc)
  · split at hqualifier
    · cases hqualifier
    · rw [List.mem_singleton.mp hqualifier] at hc
      exact List.all_eq_true.mp v.qualifier_valid c hc

/-- The dots of a written version separate its parts. -/
theorem splitOn_chars (v : Version) : v.chars.splitOn '.' = v.parts := by
  rw [chars_eq_intercalate]
  refine List.splitOn_intercalate '.' (fun part hpart hdot => ?_) (by simp [parts])
  exact absurd (isQualifierChar_of_mem_parts hpart hdot) (by decide)

/-- A written version holds dots and qualifier characters only. -/
theorem eq_dot_or_isQualifierChar_of_mem_chars {v : Version} {c : Char} (hc : c ∈ v.chars) :
    c = '.' ∨ isQualifierChar c = true := by
  rw [chars_eq_intercalate] at hc
  rcases mem_or_mem_of_mem_intercalate hc with hdot | ⟨part, hpart, hc⟩
  · exact .inl (List.mem_singleton.mp hdot)
  · exact .inr (isQualifierChar_of_mem_parts hpart hc)

/-- No character of a written version is blank. -/
theorem isBlank_eq_false_of_mem_chars {v : Version} {c : Char} (hc : c ∈ v.chars) :
    isBlank c = false := by
  rcases eq_dot_or_isQualifierChar_of_mem_chars hc with rfl | hc
  · rfl
  · exact isBlank_eq_false_of_isQualifierChar hc

/-- A version is read back from its written form. -/
theorem parse?_text (v : Version) : parse? v.text = some v := by
  have hdots := splitOn_chars v
  rw [parse?, text, String.toList_ofList, trim_eq_self fun c => isBlank_eq_false_of_mem_chars]
  split
  next hnil =>
    rw [hnil, parts] at hdots
    simp at hdots
  next =>
    obtain ⟨major, minor, micro, qualifier, hvalid⟩ := v
    rw [hdots, parts]
    -- An empty qualifier is not written, so that there are three parts.
    by_cases hempty : qualifier = ""
    · subst hempty
      simp [number?_toDigits, ofNumbers]
    · simp [number?_toDigits, ofNumbers, qualified?, withQualifier?, hempty, hvalid]

/-- Blanks around a version make no difference. -/
theorem parse?_trimText (s : String) : parse? (trimText s) = parse? s := by
  rw [parse?, parse?, trimText, String.toList_ofList, trim_trim]

end Version

/-- Blanks around a range of versions make no difference. -/
theorem VersionRange.parse?_trimText (s : String) : parse? (trimText s) = parse? s := by
  rw [parse?, parse?, trimText, String.toList_ofList, trim_trim]

end BundleWiring
