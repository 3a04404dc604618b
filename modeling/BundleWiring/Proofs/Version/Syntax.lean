import BundleWiring.Proofs.Text.Positions
import BundleWiring.Proofs.Version.Text
import Mathlib.Data.List.TakeDrop

/-!
# The Syntax of Versions and Ranges

A version is one to three numbers with dots in between, or three numbers and a qualifier; a range is
a version, or two versions in brackets with a comma in between. Readers accept the texts of this
form and no others, blanks aside, and give what the texts denote. This module proves:

- `Version.number?_eq_some_iff`: a number is a run of digits whose value has 32 bits;
- `Version.parse?_eq_some_iff`: a version is read from the texts that denote it;
- `VersionRange.parse?_eq_some_iff`: so is a range;
- `VersionRange.parse?_text_iff`: the ranges that are read back from their written form.
-/

namespace BundleWiring

open Text

namespace Version

/-- The digits of a number of 32 bits. -/
structure IsNumber (digits : List Char) (n : UInt32) : Prop where
  /-- There is a digit. -/
  ne_nil : digits ≠ []
  /-- There are digits only. -/
  isDigit : ∀ c ∈ digits, c.isDigit = true
  /-- The digits have the value of the number, whatever zeros they start with. -/
  value : Nat.ofDigitChars 10 digits 0 = n.toNat

/-- What texts denote as a version that are written with dots in between. Numbers that are not
written are zero. -/
inductive PartsDenote : List (List Char) → Version → Prop where
  /-- One number. -/
  | major {a : List Char} {x : UInt32} : IsNumber a x → PartsDenote [a] (ofNumbers x 0 0)
  /-- Two numbers. -/
  | minor {a b : List Char} {x y : UInt32} : IsNumber a x → IsNumber b y →
    PartsDenote [a, b] (ofNumbers x y 0)
  /-- Three numbers. -/
  | micro {a b c : List Char} {x y z : UInt32} : IsNumber a x → IsNumber b y → IsNumber c z →
    PartsDenote [a, b, c] (ofNumbers x y z)
  /-- Three numbers and a qualifier, which is not empty. -/
  | qualified {a b c q : List Char} {v : Version} : IsNumber a v.major → IsNumber b v.minor →
    IsNumber c v.micro → q ≠ [] → (∀ c ∈ q, IsWordChar c) → v.qualifier.toList = q →
      PartsDenote [a, b, c, q] v

/-- What a text without blanks around it denotes as a version. -/
inductive Denotes : List Char → Version → Prop where
  /-- The empty text denotes `0.0.0`. -/
  | empty : Denotes [] zero
  /-- Other texts denote what their parts do. -/
  | parts {parts : List (List Char)} {v : Version} : PartsDenote parts v →
    Denotes (['.'].intercalate parts) v

variable {digits : List Char} {parts : List (List Char)} {n : UInt32} {v : Version}

/-! ### Numbers and qualifiers -/

/-- The numbers that are read are those of the syntax. -/
theorem number?_eq_some_iff : number? digits = some n ↔ IsNumber digits n := by
  unfold number?
  constructor
  · intro h
    split at h
    next => cases h
    next hdigits =>
      simp only [Bool.or_eq_true, not_or, Bool.not_eq_true', Bool.not_eq_true, Bool.not_eq_false,
        List.isEmpty_eq_false_iff, List.all_eq_true] at hdigits
      obtain ⟨hne, hdigits⟩ := hdigits
      simp only at h
      split at h
      next hlt =>
        refine ⟨hne, hdigits, ?_⟩
        rw [← Option.some.inj h]
        exact (UInt32.toNat_ofNat_of_lt' hlt).symm
      next => cases h
  · rintro ⟨hne, hdigits, hvalue⟩
    -- The value is that of a number of 32 bits, so it is below the bound.
    have hempty : digits.isEmpty = false := List.isEmpty_eq_false_iff.mpr hne
    have hall : digits.all Char.isDigit = true := List.all_eq_true.mpr hdigits
    simp [hempty, hall, hvalue, n.toNat_lt_size]

/-- No number holds a dot. -/
theorem IsNumber.dot_notMem (h : IsNumber digits n) : '.' ∉ digits :=
  fun hdot => absurd (h.isDigit '.' hdot) (by decide)

/-- With another qualifier a version keeps its numbers. -/
theorem withQualifier?_eq_some_iff {u : Version} {q : String} : u.withQualifier? q = some v ↔
    v.major = u.major ∧ v.minor = u.minor ∧ v.micro = u.micro ∧ v.qualifier = q := by
  unfold withQualifier?
  constructor
  · intro h
    split at h
    next =>
      obtain rfl := Option.some.inj h
      exact ⟨rfl, rfl, rfl, rfl⟩
    next => cases h
  · rintro ⟨hmajor, hminor, hmicro, rfl⟩
    rw [dif_pos v.qualifier_valid]
    cases v
    simp_all

/-- A version in four parts has three numbers and a qualifier that is not empty. -/
theorem qualified?_eq_some_iff {a b c q : List Char} : qualified? a b c q = some v ↔
    IsNumber a v.major ∧ IsNumber b v.minor ∧ IsNumber c v.micro ∧ q ≠ [] ∧
      v.qualifier.toList = q := by
  simp only [qualified?, Option.bind_eq_bind, Option.bind_eq_some_iff, number?_eq_some_iff]
  constructor
  · rintro ⟨x, hx, y, hy, z, hz, h⟩
    split at h
    next => cases h
    next hq =>
      obtain ⟨rfl, rfl, rfl, hqualifier⟩ := withQualifier?_eq_some_iff.mp h
      exact ⟨hx, hy, hz, List.isEmpty_iff.not.mp hq, by rw [hqualifier, String.toList_ofList]⟩
  · rintro ⟨hx, hy, hz, hne, rfl⟩
    refine ⟨_, hx, _, hy, _, hz, ?_⟩
    rw [if_neg (List.isEmpty_iff.not.mpr hne), withQualifier?_eq_some_iff]
    exact ⟨rfl, rfl, rfl, String.ofList_toList.symm⟩

/-! ### Versions -/

/-- No part of a version holds a dot. -/
theorem PartsDenote.dot_notMem (h : PartsDenote parts v) : ∀ part ∈ parts, '.' ∉ part := by
  cases h with
  | major hx => simp [hx.dot_notMem]
  | minor hx hy => simp [hx.dot_notMem, hy.dot_notMem]
  | micro hx hy hz => simp [hx.dot_notMem, hy.dot_notMem, hz.dot_notMem]
  | qualified hx hy hz _ hq _ =>
    replace hq : '.' ∉ _ := fun hdot => absurd (isQualifierChar_iff.mpr (hq '.' hdot)) (by decide)
    simp [hx.dot_notMem, hy.dot_notMem, hz.dot_notMem, hq]

/-- The parts of a version are found again at the dots. -/
theorem PartsDenote.splitOn_intercalate (h : PartsDenote parts v) :
    (['.'].intercalate parts).splitOn '.' = parts :=
  List.splitOn_intercalate '.' h.dot_notMem (by cases h <;> exact List.cons_ne_nil _ _)

/-- The parts of a version do not make the empty text. -/
theorem PartsDenote.intercalate_ne_nil (h : PartsDenote parts v) :
    ['.'].intercalate parts ≠ [] := by
  intro hnil
  have hparts := h.splitOn_intercalate
  rw [hnil, List.splitOn_nil] at hparts
  -- A single part is a number, and that has a digit.
  cases h with
  | major hx => exact hx.ne_nil (List.cons_eq_cons.mp hparts).1.symm
  | _ => cases hparts

/-- The version that parts denote, if any. -/
def ofParts? : List (List Char) → Option Version
  | [a] => return ofNumbers (← number? a) 0 0
  | [a, b] => return ofNumbers (← number? a) (← number? b) 0
  | [a, b, c] => return ofNumbers (← number? a) (← number? b) (← number? c)
  | [a, b, c, q] => qualified? a b c q
  | _ => none

/-- The parts that give a version are those that denote it. -/
theorem ofParts?_eq_some_iff : ofParts? parts = some v ↔ PartsDenote parts v := by
  constructor
  · intro h
    unfold ofParts? at h
    simp only [Option.bind_eq_bind, Option.pure_def] at h
    split at h
    next a =>
      simp only [Option.bind_eq_some_iff, number?_eq_some_iff, Option.some.injEq] at h
      obtain ⟨x, hx, rfl⟩ := h
      exact .major hx
    next a b =>
      simp only [Option.bind_eq_some_iff, number?_eq_some_iff, Option.some.injEq] at h
      obtain ⟨x, hx, y, hy, rfl⟩ := h
      exact .minor hx hy
    next a b c =>
      simp only [Option.bind_eq_some_iff, number?_eq_some_iff, Option.some.injEq] at h
      obtain ⟨x, hx, y, hy, z, hz, rfl⟩ := h
      exact .micro hx hy hz
    next a b c q =>
      obtain ⟨hx, hy, hz, hne, rfl⟩ := qualified?_eq_some_iff.mp h
      -- The syntax asks for the characters of a qualifier, and a version carries the proof for its
      -- own.
      have hq : ∀ c ∈ v.qualifier.toList, IsWordChar c := fun c hc =>
        isQualifierChar_iff.mp (List.all_eq_true.mp v.qualifier_valid c hc)
      exact .qualified hx hy hz hne hq rfl
    next => cases h
  · intro h
    cases h with
    | major hx => simp [ofParts?, number?_eq_some_iff.mpr hx]
    | minor hx hy => simp [ofParts?, number?_eq_some_iff.mpr hx, number?_eq_some_iff.mpr hy]
    | micro hx hy hz =>
      simp [ofParts?, number?_eq_some_iff.mpr hx, number?_eq_some_iff.mpr hy,
        number?_eq_some_iff.mpr hz]
    | qualified hx hy hz hne _ hq => exact qualified?_eq_some_iff.mpr ⟨hx, hy, hz, hne, hq⟩

/-- A reader of versions reads what its dots separate. -/
theorem parse?_eq_ofParts? {t : String} (hne : trim t.toList ≠ []) :
    parse? t = ofParts? ((trim t.toList).splitOn '.') := by
  rw [parse?]
  split
  next hnil => exact absurd hnil hne
  next => rfl

/-- A reader of versions accepts the texts that denote one, and gives what they denote. -/
theorem parse?_eq_some_iff {t : String} : parse? t = some v ↔ Denotes (trim t.toList) v := by
  constructor
  · intro h
    by_cases hnil : trim t.toList = []
    · rw [parse?, hnil] at h
      rw [hnil, ← Option.some.inj h]
      exact .empty
    · -- The parts denote a version, and joined by dots they are the text again.
      rw [parse?_eq_ofParts? hnil, ofParts?_eq_some_iff] at h
      have hdots : ['.'].intercalate ((trim t.toList).splitOn '.') = trim t.toList :=
        List.intercalate_splitOn '.'
      rw [← hdots]
      exact .parts h
  · generalize hs : trim t.toList = s
    intro h
    cases h with
    | empty => rw [parse?, hs]
    | parts h =>
      rw [parse?_eq_ofParts? (hs ▸ h.intercalate_ne_nil), hs, h.splitOn_intercalate]
      exact ofParts?_eq_some_iff.mpr h

/-- The first part of a version is a number. -/
theorem PartsDenote.exists_isNumber (h : PartsDenote parts v) :
    ∃ a x others, parts = a :: others ∧ IsNumber a x := by
  cases h with
  | major hx | minor hx | micro hx | qualified hx => exact ⟨_, _, _, rfl, hx⟩

/-- What is read as a version starts with a digit, unless it is blank. -/
theorem isDigit_of_parse? {t : String} {c : Char} (h : parse? t = some v)
    (hc : (trim t.toList).head? = some c) : c.isDigit = true := by
  have hdenotes := parse?_eq_some_iff.mp h
  generalize trim t.toList = s at hc hdenotes
  cases hdenotes with
  | empty => cases hc
  | parts hparts =>
    obtain ⟨a, x, others, rfl, ha⟩ := hparts.exists_isNumber
    obtain ⟨d, a, rfl⟩ := List.exists_cons_of_ne_nil ha.ne_nil
    obtain rfl : d = c := by cases others <;> simpa [List.intercalate_cons_cons] using hc
    exact ha.isDigit d (List.mem_cons_self ..)

/-- A written version has no blanks at its ends. -/
theorem trim_chars (v : Version) : trim v.chars = v.chars :=
  trim_eq_self fun _ => isBlank_eq_false_of_mem_chars

/-- A written version is not empty. -/
theorem chars_ne_nil (v : Version) : v.chars ≠ [] := by
  rw [chars, numbersText]
  split <;> simp

/-- A written version denotes the version. -/
theorem denotes_chars (v : Version) : Denotes v.chars v := by
  -- A written version is read back, and a version is only read from what denotes it.
  have h := parse?_eq_some_iff.mp (parse?_text v)
  rwa [text, String.toList_ofList, trim_chars] at h

end Version

namespace VersionRange

/-- The bracket in front of a floor. -/
def opening (floorIncluded : Bool) : Char :=
  if floorIncluded then '[' else '('

/-- The bracket behind a ceiling. -/
def closing (ceilingIncluded : Bool) : Char :=
  if ceilingIncluded then ']' else ')'

/-- What a text without blanks around it denotes as a range. -/
inductive Denotes : List Char → VersionRange → Prop where
  /-- A version without a comma denotes that version and all later ones. -/
  | atLeast {s : List Char} {v : Version} : ',' ∉ s → Version.Denotes s v → Denotes s (atLeast v)
  /-- Two versions in brackets, neither of them blank, with the first comma in between. -/
  | interval {low high : List Char} {floor ceiling : Version}
    (floorIncluded ceilingIncluded : Bool) :
    ',' ∉ low → trim low ≠ [] → Version.Denotes (trim low) floor →
      trim high ≠ [] → Version.Denotes (trim high) ceiling →
        Denotes (opening floorIncluded :: low ++ ',' :: high ++ [closing ceilingIncluded])
          { floor, floorIncluded, ceiling := some ceiling, ceilingIncluded }

variable {s low high : List Char} {v : Version} {r : VersionRange} {t : String}

/-! ### Ranges -/

/-- A bound is a version with blanks around it, and it is not left out. -/
theorem bound?_eq_some_iff : bound? s = some v ↔ trim s ≠ [] ∧ Version.Denotes (trim s) v := by
  rw [bound?]
  split
  next hempty =>
    have hnil : trim s = [] := List.isEmpty_iff.mp hempty
    simp [hnil]
  next hempty =>
    have hne : trim s ≠ [] := List.isEmpty_iff.not.mp hempty
    rw [Version.parse?_eq_some_iff, String.toList_ofList]
    exact (and_iff_right hne).symm

/-- The bracket that a character is in front of a floor. -/
def opening? (c : Char) : Option Bool :=
  if c = '[' then some true else if c = '(' then some false else none

/-- The bracket that a character is behind a ceiling. -/
def closing? (c : Char) : Option Bool :=
  if c = ']' then some true else if c = ')' then some false else none

/-- The brackets that open an interval are read as they are written. -/
theorem opening?_eq_some_iff {c : Char} {included : Bool} :
    opening? c = some included ↔ c = opening included := by
  cases included <;> grind [opening?, opening]

/-- The brackets that close an interval are read as they are written. -/
theorem closing?_eq_some_iff {c : Char} {included : Bool} :
    closing? c = some included ↔ c = closing included := by
  cases included <;> grind [closing?, closing]

/-- A text opens an interval if it starts with a bracket that does. -/
theorem head?_bind_opening?_eq_some_iff {included : Bool} :
    low.head?.bind opening? = some included ↔ ∃ s, low = opening included :: s := by
  simp only [Option.bind_eq_some_iff, opening?_eq_some_iff, exists_eq_right, List.head?_eq_some_iff]

/-- A text closes an interval if it ends with a bracket that does. -/
theorem getLast?_bind_closing?_eq_some_iff {included : Bool} :
    high.getLast?.bind closing? = some included ↔ ∃ s, high = s ++ [closing included] := by
  simp only [Option.bind_eq_some_iff, closing?_eq_some_iff, exists_eq_right,
    List.getLast?_eq_some_iff]

/-- The interval between two brackets. -/
def between? (low high : List Char) (floorIncluded ceilingIncluded : Bool) :
    Option VersionRange := do
  let floor ← bound? low
  let ceiling ← bound? high
  return { floor, floorIncluded, ceiling := some ceiling, ceilingIncluded }

/-- Behind an opening bracket, an interval is read up to a closing bracket at the end. -/
theorem interval?_opening_cons (floorIncluded : Bool) (s high : List Char) :
    interval? (opening floorIncluded :: s) high =
      (high.getLast?.bind closing?).bind (between? s high.dropLast floorIncluded) := by
  -- Nothing but the last character decides, so its cases are those of the reader.
  unfold interval?
  cases high.getLast? with
  | none => cases floorIncluded <;> rfl
  | some c =>
    by_cases hsquare : c = ']'
    · rw [hsquare]
      cases floorIncluded <;> rfl
    by_cases hround : c = ')'
    · rw [hround]
      cases floorIncluded <;> rfl
    cases floorIncluded <;> simp [opening, closing?, hsquare, hround]

/-- An interval is read between a bracket at the start and a bracket at the end. -/
theorem interval?_eq (low high : List Char) : interval? low high =
    (low.head?.bind opening?).bind fun floorIncluded =>
      (high.getLast?.bind closing?).bind (between? low.tail high.dropLast floorIncluded) := by
  cases low with
  | nil => rfl
  | cons c s =>
    by_cases hsquare : c = '['
    · rw [hsquare]
      exact interval?_opening_cons true s high
    by_cases hround : c = '('
    · rw [hround]
      exact interval?_opening_cons false s high
    simp [interval?, opening?, hsquare, hround]

/-- The range between two texts has the versions that they denote for its bounds. -/
theorem between?_eq_some_iff {floorIncluded ceilingIncluded : Bool} :
    between? low high floorIncluded ceilingIncluded = some r ↔ ∃ floor ceiling,
      bound? low = some floor ∧ bound? high = some ceiling ∧
        r = { floor, floorIncluded, ceiling := some ceiling, ceilingIncluded } := by
  simp only [between?, Option.bind_eq_bind, Option.bind_eq_some_iff, Option.pure_def,
    Option.some.injEq, exists_and_left, @eq_comm _ r]

/-- Two texts make an interval if the first opens it, the second closes it and both are bounds. -/
theorem interval?_eq_some_iff : interval? low high = some r ↔
    ∃ floorIncluded ceilingIncluded s t, low = opening floorIncluded :: s ∧
      high = t ++ [closing ceilingIncluded] ∧
        between? s t floorIncluded ceilingIncluded = some r := by
  rw [interval?_eq]
  constructor
  · intro h
    obtain ⟨floorIncluded, hopening, h⟩ := Option.bind_eq_some_iff.mp h
    obtain ⟨ceilingIncluded, hclosing, h⟩ := Option.bind_eq_some_iff.mp h
    obtain ⟨s, rfl⟩ := head?_bind_opening?_eq_some_iff.mp hopening
    obtain ⟨t, rfl⟩ := getLast?_bind_closing?_eq_some_iff.mp hclosing
    rw [List.tail_cons, List.dropLast_concat] at h
    exact ⟨floorIncluded, ceilingIncluded, s, t, rfl, rfl, h⟩
  · rintro ⟨floorIncluded, ceilingIncluded, s, t, rfl, rfl, h⟩
    rw [head?_bind_opening?_eq_some_iff.mpr ⟨s, rfl⟩, Option.bind_some,
      getLast?_bind_closing?_eq_some_iff.mpr ⟨t, rfl⟩, Option.bind_some, List.tail_cons,
      List.dropLast_concat]
    exact h

/-- A text without a comma is read as a version. -/
theorem parse?_of_notMem (h : ',' ∉ trim t.toList) : parse? t = atLeast <$> Version.parse? t := by
  have hversion : Version.parse? (String.ofList (trim t.toList)) = Version.parse? t :=
    Version.parse?_trimText t
  simp only [parse?, span_bne_of_notMem h, hversion]

/-- A text with a comma is read as an interval, cut at the first comma. -/
theorem parse?_of_eq_append (hlow : ',' ∉ low) (h : trim t.toList = low ++ ',' :: high) :
    parse? t = interval? low high := by
  simp only [parse?, h, span_bne_append_cons hlow]

/-- Brackets are not commas. -/
theorem comma_notMem_opening_cons {floorIncluded : Bool} :
    ',' ∉ opening floorIncluded :: low ↔ ',' ∉ low := by
  have hne : ',' ≠ opening floorIncluded := by cases floorIncluded <;> decide
  rw [List.mem_cons, not_or, and_iff_right hne]

/-- A reader of ranges accepts the texts that denote one, and gives what they denote. -/
theorem parse?_eq_some_iff : parse? t = some r ↔ Denotes (trim t.toList) r := by
  constructor
  · intro h
    by_cases hcomma : ',' ∈ trim t.toList
    · -- The text is cut at the first comma, and the brackets are taken off what is on either side.
      obtain ⟨low, high, hs, hlow⟩ := List.eq_append_cons_of_mem hcomma
      rw [parse?_of_eq_append hlow hs] at h
      obtain ⟨floorIncluded, ceilingIncluded, low, high, rfl, rfl, hbetween⟩ :=
        interval?_eq_some_iff.mp h
      obtain ⟨floor, ceiling, hfloor, hceiling, rfl⟩ := between?_eq_some_iff.mp hbetween
      obtain ⟨hlowNe, hfloor⟩ := bound?_eq_some_iff.mp hfloor
      obtain ⟨hhighNe, hceiling⟩ := bound?_eq_some_iff.mp hceiling
      rw [hs, ← List.cons_append, ← List.append_assoc]
      exact .interval floorIncluded ceilingIncluded (comma_notMem_opening_cons.mp hlow) hlowNe
        hfloor hhighNe hceiling
    · rw [parse?_of_notMem hcomma, Option.map_eq_map, Option.map_eq_some_iff] at h
      obtain ⟨v, hv, rfl⟩ := h
      exact .atLeast hcomma (Version.parse?_eq_some_iff.mp hv)
  · generalize hs : trim t.toList = s
    intro h
    cases h with
    | atLeast hcomma hv =>
      rw [parse?_of_notMem (hs ▸ hcomma), Version.parse?_eq_some_iff.mpr (hs ▸ hv)]
      rfl
    | interval floorIncluded ceilingIncluded hlow hlowNe hfloor hhighNe hceiling =>
      rw [List.append_assoc, @List.cons_append _ ','] at hs
      rw [parse?_of_eq_append (comma_notMem_opening_cons.mpr hlow) hs, interval?_eq_some_iff]
      refine ⟨floorIncluded, ceilingIncluded, _, _, rfl, rfl, between?_eq_some_iff.mpr ?_⟩
      exact ⟨_, _, bound?_eq_some_iff.mpr ⟨hlowNe, hfloor⟩,
        bound?_eq_some_iff.mpr ⟨hhighNe, hceiling⟩, rfl⟩

/-! ### Written ranges -/

/-- Written versions are without commas. -/
theorem comma_notMem_chars (v : Version) : ',' ∉ v.chars := by
  intro hcomma
  rcases Version.eq_dot_or_isQualifierChar_of_mem_chars hcomma with h | h
  · exact absurd h (by decide)
  · exact absurd h (by decide)

/-- Written ranges are without blanks. -/
theorem isBlank_eq_false_of_mem_chars {c : Char} (hc : c ∈ r.chars) : isBlank c = false := by
  rw [chars] at hc
  split at hc
  next => exact Version.isBlank_eq_false_of_mem_chars hc
  next ceiling _ =>
    simp only [List.cons_append, List.mem_cons, List.mem_append, List.not_mem_nil, or_false] at hc
    rcases hc with rfl | (hfloor | rfl | hceiling) | rfl
    · split <;> rfl
    · exact Version.isBlank_eq_false_of_mem_chars hfloor
    · rfl
    · exact Version.isBlank_eq_false_of_mem_chars hceiling
    · split <;> rfl

/-- A written range denotes the range if it has a ceiling, and its floor and all later versions
otherwise. -/
theorem denotes_chars (r : VersionRange) :
    Denotes r.chars (if r.ceiling.isSome then r else atLeast r.floor) := by
  obtain ⟨floor, floorIncluded, ceiling, ceilingIncluded⟩ := r
  cases ceiling with
  | none => exact .atLeast (comma_notMem_chars floor) (Version.denotes_chars floor)
  | some ceiling =>
    refine .interval floorIncluded ceilingIncluded (comma_notMem_chars floor) ?_ ?_ ?_ ?_
    all_goals rw [Version.trim_chars]
    · exact Version.chars_ne_nil floor
    · exact Version.denotes_chars floor
    · exact Version.chars_ne_nil ceiling
    · exact Version.denotes_chars ceiling

/-- Exactly the ranges that have a ceiling or hold all versions from their floor on are read back
from their written form. -/
theorem parse?_text_iff (r : VersionRange) :
    parse? r.text = some r ↔ r.ceiling.isSome = true ∨ ∃ v, r = atLeast v := by
  have hparse : parse? r.text = some (if r.ceiling.isSome then r else atLeast r.floor) := by
    rw [parse?_eq_some_iff, text, String.toList_ofList,
      trim_eq_self fun _ => isBlank_eq_false_of_mem_chars]
    exact denotes_chars r
  rw [hparse, Option.some_inj]
  by_cases hceiling : r.ceiling.isSome = true
  · rw [if_pos hceiling]
    exact iff_of_true rfl (.inl hceiling)
  · -- Only the floor is written, so the range is read as all versions from it on.
    rw [if_neg hceiling, or_iff_right hceiling]
    constructor
    · intro h
      exact ⟨r.floor, h.symm⟩
    · rintro ⟨v, rfl⟩
      rfl

end VersionRange

end BundleWiring
