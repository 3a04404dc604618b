import BundleWiring.Attribute.Typed
import BundleWiring.Proofs.Readings
import BundleWiring.Proofs.Text.Delimited
import BundleWiring.Proofs.Version.Text

/-!
# Written Attribute Values

An attribute is written with the name of its type, and reading the text as a value of this type
gives the value back. A list has no more than commas between its elements, so its elements must not
be empty and must not hold what has a meaning in lists. This module proves:

- `Decimal.readInt64_int64Chars`: an integer is read back from its digits;
- `delimited_text`: the elements of a written list are found again;
- `read_text`: a value is read back as a value of its type.
-/

namespace BundleWiring

open Text

/-! ### Characters of numbers and versions -/

/-- The characters that numbers and versions are written with. -/
def isNumeralChar (c : Char) : Bool :=
  isQualifierChar c || c == '.'

/-- No character of a numeral is blank. -/
theorem isBlank_eq_false_of_isNumeralChar {c : Char} (h : isNumeralChar c = true) :
    isBlank c = false := by
  rcases Bool.or_eq_true_iff.mp h with hqualifier | hdot
  · exact isBlank_eq_false_of_isQualifierChar hqualifier
  · rw [beq_iff_eq.mp hdot]
    rfl

/-- Nothing that separates, quotes or escapes is in a number or a version. -/
theorem notMem_of_isNumeralChar {c : Char} (h : isNumeralChar c = true) :
    c ∉ [',', ';', '"', '\\'] := by
  intro hmem
  have hall : [',', ';', '"', '\\'].all (!isNumeralChar ·) = true := by decide
  have hnot := List.all_eq_true.mp hall c hmem
  rw [h] at hnot
  cases hnot

/-- A written version consists of characters of numerals. -/
theorem Version.isNumeralChar_of_mem_chars {v : Version} {c : Char} (hc : c ∈ v.chars) :
    isNumeralChar c = true := by
  rcases Version.eq_dot_or_isQualifierChar_of_mem_chars hc with rfl | hc
  · rfl
  · exact Bool.or_eq_true_iff.mpr (.inl hc)

namespace Decimal

variable {limit n : Nat} {overflow : IntegerFault} {s : List Char}

/-- The number that digits stand for is read, if it is not above the limit. -/
theorem readDigits_eq_ok (hs : ∀ c ∈ s, c.isDigit = true)
    (hlimit : Nat.ofDigitChars 10 s n ≤ limit) :
    readDigits limit overflow n s = .ok (Nat.ofDigitChars 10 s n) := by
  induction s generalizing n with
  | nil => rfl
  | cons c s ih =>
    obtain ⟨hc, hs⟩ := List.forall_mem_cons.mp hs
    rw [Nat.ofDigitChars_cons] at hlimit ⊢
    -- Further digits do not make a number smaller, so none of them leads above the limit.
    have hle : 10 * n + (c.toNat - '0'.toNat) ≤ limit := by
      rw [Nat.ofDigitChars_eq_ofDigitChars_zero] at hlimit
      refine le_trans ?_ hlimit
      exact Nat.le_add_right_of_le (Nat.le_mul_of_pos_left _ (Nat.pow_pos (by decide)))
    rw [readDigits, hc]
    simp only [Bool.not_true, Bool.false_eq_true, if_false, if_pos hle]
    exact ih hs hlimit

/-- A written number consists of digits. -/
theorem isDigit_of_mem_toDigits {c : Char} (hc : c ∈ Nat.toDigits 10 n) : c.isDigit = true :=
  Nat.isDigit_of_mem_toDigits (by decide) (by decide) hc

/-- A written number is read back, if it does not exceed the limit. -/
theorem readDigits_toDigits (hn : n ≤ limit) :
    readDigits limit overflow 0 (Nat.toDigits 10 n) = .ok n := by
  have hvalue : Nat.ofDigitChars 10 (Nat.toDigits 10 n) 0 = n := Nat.ofDigitChars_ten_toDigits
  rw [readDigits_eq_ok (fun c => isDigit_of_mem_toDigits) (by rwa [hvalue]), hvalue]

/-- A written integer is not empty. -/
theorem int64Chars_ne_nil (v : Int64) : int64Chars v ≠ [] := by
  unfold int64Chars
  split
  · exact List.cons_ne_nil _ _
  · exact Nat.toDigits_ne_nil

/-- A written integer consists of characters of numerals. -/
theorem isNumeralChar_of_mem_int64Chars {v : Int64} {c : Char} (hc : c ∈ int64Chars v) :
    isNumeralChar c = true := by
  have hdigit : ∀ c ∈ Nat.toDigits 10 v.toInt.natAbs, isNumeralChar c = true := fun c hc =>
    Bool.or_eq_true_iff.mpr (.inl (isQualifierChar_of_isDigit (isDigit_of_mem_toDigits hc)))
  unfold int64Chars at hc
  split at hc
  · rcases List.mem_cons.mp hc with rfl | hc
    · rfl
    · exact hdigit c hc
  · exact hdigit c hc

/-- Behind a minus sign a negative integer is read. -/
theorem readInt64_minus (hs : s ≠ []) : readInt64 ('-' :: s) =
    (fun n : Nat => Int64.ofInt (-(n : Int))) <$> readDigits (greatestInt64 + 1) .tooSmall 0 s := by
  unfold readInt64
  split <;> simp_all

/-- Without a sign a positive integer is read. -/
theorem readInt64_unsigned {c : Char} (hplus : c ≠ '+') (hminus : c ≠ '-') (s : List Char) :
    readInt64 (c :: s) = Int64.ofNat <$> readDigits greatestInt64 .tooLarge 0 (c :: s) := by
  unfold readInt64
  split <;> simp_all

/-- An integer is read back from its digits. -/
theorem readInt64_int64Chars (v : Int64) : readInt64 (int64Chars v) = .ok v := by
  have hlower := v.le_toInt
  have hupper := v.toInt_lt
  unfold int64Chars
  split
  next hneg =>
    have hread : readDigits (greatestInt64 + 1) .tooSmall 0 (Nat.toDigits 10 v.toInt.natAbs) =
        .ok v.toInt.natAbs := readDigits_toDigits (by unfold greatestInt64; omega)
    have hint : -(v.toInt.natAbs : Int) = v.toInt := by omega
    rw [readInt64_minus Nat.toDigits_ne_nil, hread]
    exact congrArg Except.ok ((congrArg Int64.ofInt hint).trans v.ofInt_toInt)
  next hnonneg =>
    have hread : readDigits greatestInt64 .tooLarge 0 (Nat.toDigits 10 v.toInt.natAbs) =
        .ok v.toInt.natAbs := readDigits_toDigits (by unfold greatestInt64; omega)
    have hint : (v.toInt.natAbs : Int) = v.toInt := by omega
    obtain ⟨first, others, hdigits⟩ : ∃ first others,
        Nat.toDigits 10 v.toInt.natAbs = first :: others :=
      List.exists_cons_of_ne_nil Nat.toDigits_ne_nil
    -- The first character is a digit, so it is not taken for a sign.
    have hfirst : first.isDigit = true := isDigit_of_mem_toDigits (hdigits ▸ List.mem_cons_self ..)
    have hplus : first ≠ '+' := fun h => absurd (h ▸ hfirst) (by decide)
    have hminus : first ≠ '-' := fun h => absurd (h ▸ hfirst) (by decide)
    rw [hdigits] at hread ⊢
    rw [readInt64_unsigned hplus hminus, hread]
    exact congrArg Except.ok (by rw [← Int64.ofInt_eq_ofNat, hint, v.ofInt_toInt])

end Decimal

namespace AttrValue

variable {name type : String} {items : List AttrValue}

/-! ### Lists -/

/-- A text that can be an element of a list as it is: it is not empty, and nothing in it separates,
quotes or escapes. -/
def IsElement (s : List Char) : Prop :=
  s ≠ [] ∧ ∀ c ∈ s, c ≠ ',' ∧ c ≠ '"' ∧ c ≠ '\\'

instance (s : List Char) : Decidable (IsElement s) :=
  @instDecidableAnd _ _ _ (List.decidableBAll _ s)

/-- A numeral can be an element of a list that is written. -/
theorem isElement_of_isNumeralChar {s : List Char} (hne : s ≠ [])
    (hs : ∀ c ∈ s, isNumeralChar c = true) : IsElement s := by
  refine ⟨hne, fun c hc => ?_⟩
  have hnot := notMem_of_isNumeralChar (hs c hc)
  simp only [List.mem_cons, not_or] at hnot
  exact ⟨hnot.1, hnot.2.2.1, hnot.2.2.2.1⟩

/-- The elements of a list are written with commas between them. -/
theorem charsAll_eq_intercalate (items : List AttrValue) :
    charsAll items = [','].intercalate (items.map chars) := by
  induction items with
  | nil => rfl
  | cons item items ih =>
    cases items with
    | nil => exact (List.intercalate_singleton ..).symm
    | cons second items =>
      rw [charsAll, ih, List.map_cons, List.map_cons, List.map_cons, List.intercalate_cons_cons,
        List.append_assoc, List.singleton_append]
      exact fun h => List.cons_ne_nil _ _ h

/-- The elements of a written list are found again at its commas. -/
theorem delimited_text (h : ∀ item ∈ items, IsElement item.chars) :
    delimited (list items).text "," false = items.map text := by
  -- No character of an element has a meaning in a list, so that each element spells itself.
  have hspells : List.Forall₂ (Spells [','].contains) (items.map chars)
      (items.map chars) := by
    refine List.forall₂_same.mpr fun s hs => spells_self fun c hc => ?_
    obtain ⟨item, hitem, rfl⟩ := List.mem_map.mp hs
    obtain ⟨hcomma, hquote, hbackslash⟩ := (h item hitem).2 c hc
    exact ⟨hbackslash, hquote, by simpa using hcomma⟩
  -- The last token would be dropped if it were empty.
  have hlast : (items.map chars).getLast? ≠ some [] := by
    intro hnil
    obtain ⟨item, hitem, hempty⟩ := List.mem_map.mp (List.mem_of_getLast? hnil)
    exact (h item hitem).1 hempty
  have htokens : tokens [','].contains ([','].intercalate (items.map chars)) = items.map chars :=
    tokens_intercalate (by decide) (by decide) hspells hlast
  rw [delimited, text, chars, charsAll_eq_intercalate, String.toList_ofList, String.toList_ofList,
    htokens, List.map_map]
  rfl

/-- A list whose elements are read back one by one is read back. -/
theorem read_list_text (h : ∀ item ∈ items, IsElement item.chars ∧
      readScalar name type item.text = .ok item) :
    AttrValue.list <$> (delimited (list items).text "," false).mapM (readScalar name type) =
      .ok (.list items) := by
  refine map_eq_ok_iff.mpr ⟨items, ?_, rfl⟩
  rw [delimited_text fun item hitem => (h item hitem).1, mapM_eq_ok_iff,
    List.forall₂_map_left_iff, List.forall₂_same]
  exact fun item hitem => (h item hitem).2

/-! ### Values and their types -/

/-- A value that its text and its type determine. -/
inductive Readable : AttrValue → Prop where
  /-- A text is. -/
  | str (s : String) : Readable (.str s)
  /-- A 64-bit integer is. -/
  | long (n : Int64) : Readable (.long n)
  /-- A version is. -/
  | version (v : Version) : Readable (.version v)
  /-- A list of integers is. -/
  | longs (ns : List Int64) : Readable (.list (ns.map .long))
  /-- A list of versions is. -/
  | versions (vs : List Version) : Readable (.list (vs.map .version))
  /-- A list of texts is, if they are separated by nothing but the commas of the list. -/
  | texts {ss : List String} (h : ∀ s ∈ ss, IsElement s.toList) : Readable (.list (ss.map .str))

/-- A written integer can be an element of a list that is written. -/
theorem isElement_chars_long (n : Int64) : IsElement (long n).chars :=
  isElement_of_isNumeralChar (Decimal.int64Chars_ne_nil n)
    fun _ => Decimal.isNumeralChar_of_mem_int64Chars

/-- A written version can be an element of a list that is written. -/
theorem isElement_chars_version (v : Version) : IsElement (version v).chars := by
  refine isElement_of_isNumeralChar ?_ fun c => Version.isNumeralChar_of_mem_chars
  rw [chars, Version.chars_eq_intercalate]
  simp [Version.parts, List.intercalate]

/-- A written integer has no blanks at its ends. -/
theorem trim_text_long (n : Int64) : trim (text (.long n)).toList = Decimal.int64Chars n := by
  rw [text, String.toList_ofList]
  exact trim_eq_self fun c hc =>
    isBlank_eq_false_of_isNumeralChar (Decimal.isNumeralChar_of_mem_int64Chars hc)

/-- An integer is read back. -/
theorem readScalar_long (name : String) (n : Int64) :
    readScalar name "Long" (long n).text = .ok (.long n) := by
  rw [readScalar, trim_text_long, Decimal.readInt64_int64Chars]

/-- A version is read back. -/
theorem readScalar_version (name : String) (v : Version) :
    readScalar name "Version" (version v).text = .ok (.version v) := by
  have hparse : Version.parse? (text (.version v)) = some v := v.parse?_text
  rw [readScalar, hparse]
  rfl

/-- A text is read back. -/
theorem readScalar_str (name s : String) : readScalar name "String" (str s).text = .ok (.str s) :=
  congrArg (fun s => Except.ok (AttrValue.str s)) String.ofList_toList

/-- A list has the type of its first element, and all elements are read as values of it. An empty
list counts as a list of texts. -/
theorem Readable.exists_elementType (h : (AttrValue.list items).Readable) :
    ∃ type ∈ ["String", "Long", "Version"], typeName (.list items) = "List<" ++ type ++ ">" ∧
      ∀ item ∈ items, IsElement item.chars ∧ ∀ name, readScalar name type item.text = .ok item := by
  -- An empty list has no element that tells its type, and counts as one of texts.
  cases h with
  | longs ns =>
    cases ns with
    | nil => exact ⟨"String", by simp, rfl, by simp⟩
    | cons n ns =>
      refine ⟨"Long", by simp, rfl, fun item hitem => ?_⟩
      obtain ⟨m, -, rfl⟩ := List.mem_map.mp hitem
      exact ⟨isElement_chars_long m, fun name => readScalar_long name m⟩
  | versions vs =>
    cases vs with
    | nil => exact ⟨"String", by simp, rfl, by simp⟩
    | cons v vs =>
      refine ⟨"Version", by simp, rfl, fun item hitem => ?_⟩
      obtain ⟨w, -, rfl⟩ := List.mem_map.mp hitem
      exact ⟨isElement_chars_version w, fun name => readScalar_version name w⟩
  | @texts ss hss =>
    cases ss with
    | nil => exact ⟨"String", by simp, rfl, by simp⟩
    | cons s ss =>
      refine ⟨"String", by simp, rfl, fun item hitem => ?_⟩
      obtain ⟨t, ht, rfl⟩ := List.mem_map.mp hitem
      exact ⟨hss t ht, fun name => readScalar_str name t⟩

/-- The types of values and of their lists, without blanks in their names. -/
theorem read_of_mem (name raw : String) : ∀ type ∈ ["String", "Long", "Version"],
    read name type raw = readScalar name type raw ∧
      read name ("List<" ++ type ++ ">") raw =
        AttrValue.list <$> (delimited raw "," false).mapM (readScalar name type) := by
  rintro type (_ | ⟨_, _ | ⟨_, _ | ⟨_, ⟨⟩⟩⟩⟩) <;> exact ⟨rfl, rfl⟩

/-- A value is read back as a value of its type. -/
theorem read_text {v : AttrValue} (h : v.Readable) (name : String) :
    read name v.typeName v.text = .ok v := by
  have hread := read_of_mem name v.text
  cases v with
  | double d | range r => cases h
  | str s => exact (hread "String" (by simp)).1.trans (readScalar_str name s)
  | long n => exact (hread "Long" (by simp)).1.trans (readScalar_long name n)
  | version v => exact (hread "Version" (by simp)).1.trans (readScalar_version name v)
  -- The type of the elements is found again in the type of the list.
  | list items =>
    obtain ⟨type, htype, hname, hitems⟩ := h.exists_elementType
    rw [hname, (hread type htype).2]
    exact read_list_text fun item hitem => ⟨(hitems item hitem).1, (hitems item hitem).2 name⟩

end AttrValue

end BundleWiring
