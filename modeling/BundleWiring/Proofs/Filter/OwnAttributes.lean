import BundleWiring.Proofs.Attribute.Text
import BundleWiring.Proofs.Filter.Pattern

/-!
# Attributes and Filters for Them

A filter for given attributes takes the written form of a text as an operand, so stars in it stand
for any text and backslashes are escapes. An integer or a version is written without either and is
found again. A text describes itself if it holds no backslash, and it does not if it holds one but
no star that could make up for it. This module proves:

- `describes_signs_self`: a text without backslashes describes itself;
- `not_describes_signs_self`: a text with a backslash and without stars does not;
- `accepts_ofAttributes_self_iff`: a filter for given attributes holds of them exactly if all texts
  among them describe themselves.
-/

namespace BundleWiring

/-- Whether a value is a text, a 64-bit integer or a version. -/
def AttrValue.isBasic : AttrValue → Bool
  | .str _ => true
  | .long _ => true
  | .version _ => true
  | _ => false

namespace Filter

variable {attributes : Attributes} {name : String} {s : List Char}

/-! ### Texts as operands for themselves -/

/-- A text without backslashes describes itself; a star in it describes the star. -/
theorem describes_signs_self (h : '\\' ∉ s) : Describes (signs s) s := by
  induction s with
  | nil => exact .nil
  | cons c s ih =>
    obtain ⟨hescape, hs⟩ := not_or.mp (List.mem_cons.not.mp h)
    by_cases hstar : c = '*'
    · subst hstar
      exact .star ['*'] (ih hs)
    · rw [signs_cons_of_ne hstar (Ne.symm hescape)]
      exact .literal c (ih hs)

/-- Signs without stars describe texts of as many characters. -/
theorem Describes.length_eq {ss : List Sign} (h : Describes ss s) (hstar : Sign.star ∉ ss) :
    s.length = ss.length := by
  induction h with
  | nil => rfl
  | literal c _ ih =>
    obtain ⟨-, hss⟩ := not_or.mp (List.mem_cons.not.mp hstar)
    rw [List.length_cons, List.length_cons, ih hss]
  | star gap _ _ => exact absurd (List.mem_cons_self ..) hstar

/-- An operand has no more signs than characters. -/
theorem length_signs_le (s : List Char) : (signs s).length ≤ s.length := by
  fun_induction signs s with
  | case1 => exact Nat.le_refl 0
  | case2 => exact Nat.zero_le 1
  | case3 c s ih =>
    simp only [List.length_cons]
    omega
  | case4 s ih => exact Nat.succ_le_succ ih
  | case5 c s _ _ _ ih => exact Nat.succ_le_succ ih

/-- An escape has fewer signs than characters. -/
theorem length_signs_lt (h : '\\' ∈ s) : (signs s).length < s.length := by
  fun_induction signs s with
  | case1 => cases h
  -- A backslash is no sign, and one at the very end is dropped.
  | case2 => exact Nat.zero_lt_one
  | case3 c s _ =>
    have hle := length_signs_le s
    simp only [List.length_cons]
    omega
  | case4 s ih =>
    obtain h | h := List.mem_cons.mp h
    · exact absurd h (by decide)
    · exact Nat.succ_lt_succ (ih h)
  | case5 c s hlast hescape _ ih =>
    obtain heq | h := List.mem_cons.mp h
    · exact absurd heq.symm (Text.ne_backslash hlast hescape)
    · exact Nat.succ_lt_succ (ih h)

/-- A text with a backslash does not describe itself, unless a star makes up for what is lost. -/
theorem not_describes_signs_self (h : '\\' ∈ s) (hstar : Sign.star ∉ signs s) :
    ¬ Describes (signs s) s :=
  fun hself => absurd (hself.length_eq hstar) (Nat.ne_of_gt (length_signs_lt h))

/-! ### Values as operands for themselves -/

/-- Numbers and versions are written without stars and backslashes. -/
theorem isPlain_of_isNumeralChar {s : String} (h : ∀ c ∈ s.toList, isNumeralChar c = true) :
    isPlain s = true := by
  refine List.all_eq_true.mpr fun c hc => ?_
  have hstar : c ≠ '*' := fun heq => absurd (heq ▸ h c hc) (by decide)
  have hescape : c ≠ '\\' := fun heq => absurd (heq ▸ h c hc) (by decide)
  rw [Bool.and_eq_true, bne_iff_ne, bne_iff_ne]
  exact ⟨hstar, hescape⟩

/-- The condition for a value that is written without stars and backslashes is an equality. -/
theorem ofAttribute_of_isPlain {value : AttrValue} (hrange : ∀ r, value ≠ .range r)
    (h : isPlain value.text = true) : ofAttribute name value = [eq name value.text] := by
  cases value with
  | range r => exact absurd rfl (hrange r)
  | str s | long n | double d | version v | list items =>
    show [ofPieces name (piecesOf _)] = _
    rw [piecesOf_of_isPlain h]
    rfl

/-- An integer or a version compares equal with its written form. -/
theorem satisfies_text_of_isBasic {value : AttrValue} (hbasic : value.isBasic = true)
    (hstr : ∀ s, value ≠ .str s) : value.satisfies .eq value.text = true := by
  cases value with
  | double d | range r | list items => cases hbasic
  | str s => exact absurd rfl (hstr s)
  | long n =>
    rw [AttrValue.satisfies, AttrValue.trim_text_long, Decimal.readInt64_int64Chars]
    simp [Except.toOption, Comparison.holds]
  | version v =>
    have hparse : Version.parse? (AttrValue.text (.version v)) = some v := v.parse?_text
    rw [AttrValue.satisfies, hparse]
    simp [Comparison.holds]

/-- An integer or a version is written without stars and backslashes. -/
theorem isPlain_text_of_isBasic {value : AttrValue} (hbasic : value.isBasic = true)
    (hstr : ∀ s, value ≠ .str s) : isPlain value.text = true := by
  refine isPlain_of_isNumeralChar fun c hc => ?_
  rw [AttrValue.text, String.toList_ofList] at hc
  cases value with
  | double d | range r | list items => cases hbasic
  | str s => exact absurd rfl (hstr s)
  | long n => exact Decimal.isNumeralChar_of_mem_int64Chars hc
  | version v => exact Version.isNumeralChar_of_mem_chars hc

/-- The conditions for an attribute hold of the attribute itself, if a text describes itself. -/
theorem acceptsAll_ofAttribute_self_iff {value : AttrValue}
    (hvalue : attributes.get? name = some value) (hbasic : value.isBasic = true) :
    acceptsAll attributes (ofAttribute name value) = true ↔
      ∀ s, value = .str s → Describes (signs s.toList) s.toList := by
  -- Only a text can hold stars and backslashes; any other value is compared with itself.
  by_cases hstr : ∃ s, value = .str s
  · obtain ⟨s, rfl⟩ := hstr
    have htext : AttrValue.text (.str s) = s := String.ofList_toList
    rw [ofAttribute, htext, acceptsAll, acceptsAll, Bool.and_true, accepts_piecesOf_iff hvalue]
    · exact ⟨fun h t ht => AttrValue.str.inj ht ▸ h, fun h => h s rfl⟩
    · exact fun r h => by cases h
  · have hne : ∀ s, value ≠ .str s := fun s h => hstr ⟨s, h⟩
    have hrange : ∀ r, value ≠ .range r := fun r h => by rw [h] at hbasic; cases hbasic
    rw [ofAttribute_of_isPlain hrange (isPlain_text_of_isBasic hbasic hne), acceptsAll, acceptsAll,
      Bool.and_true, eq, accepts, hvalue, Option.any_some, satisfies_text_of_isBasic hbasic hne]
    exact ⟨fun _ s h => absurd h (hne s), fun _ => rfl⟩

/-! ### Attributes and the filter for them -/

/-- A filter for attributes that are texts, integers and versions holds of these attributes exactly
if all texts among them describe themselves. Texts without backslashes do, and texts with
backslashes and without stars do not. -/
theorem accepts_ofAttributes_self_iff (attributes : Attributes)
    (h : ∀ e ∈ attributes.entries, e.2.isBasic = true) :
    ((ofAttributes attributes).accepts attributes = true ↔
      ∀ name s, attributes.get? name = some (.str s) → Describes (signs s.toList) s.toList) ∧
    (∀ s, '\\' ∉ s → Describes (signs s) s) ∧
    ∀ s, '\\' ∈ s → Sign.star ∉ signs s → ¬ Describes (signs s) s := by
  refine ⟨?_, fun s => describes_signs_self, fun s => not_describes_signs_self⟩
  rw [accepts_ofAttributes_iff]
  constructor
  · intro haccepts name s hs
    exact (acceptsAll_ofAttribute_self_iff hs rfl).mp (haccepts name _ hs) s rfl
  · intro hself name value hvalue
    have hbasic : value.isBasic = true := h (name, value) ((Table.mem_entries_iff _).mpr hvalue)
    refine (acceptsAll_ofAttribute_self_iff hvalue hbasic).mpr fun s hs => ?_
    exact hself name s (hs ▸ hvalue)

/-- A text with a star, an integer and a version are found again. -/
theorem accepts_ofAttributes_self_starred :
    (ofAttributes (.ofList [("a", .str "x*"), ("n", .long (-7)),
      ("v", .version (.ofNumbers 1 2 0))])).accepts (.ofList [("a", .str "x*"), ("n", .long (-7)),
        ("v", .version (.ofNumbers 1 2 0))]) = true := by
  obtain ⟨hiff, hself, -⟩ := accepts_ofAttributes_self_iff
    (.ofList [("a", .str "x*"), ("n", .long (-7)), ("v", .version (.ofNumbers 1 2 0))]) (by decide)
  refine hiff.mpr fun name s hs => hself s.toList ?_
  have he := (Table.mem_entries_iff _).mpr hs
  rw [Table.entries_ofList (by decide)] at he
  obtain ⟨-, rfl⟩ : name = "a" ∧ s = "x*" := by simpa using he
  decide

/-- Attributes with a backslash in a text need not satisfy the filter for them. -/
theorem not_forall_accepts_ofAttributes_self : ¬ ∀ attributes : Attributes,
    (∀ e ∈ attributes.entries, e.2.isBasic = true) →
      (ofAttributes attributes).accepts attributes = true := by
  intro h
  -- The escape is dropped from the operand, and the text still holds it.
  exact absurd (h (.ofList [("a", .str "x\\y")]) (by decide)) (by decide)

end Filter

end BundleWiring
