import BundleWiring.Proofs.Equality
import BundleWiring.Proofs.Version.Text
import BundleWiring.Version.Qualifier
import Mathlib.Data.List.Infix

/-!
# Normalized Qualifiers

A qualifier is normalized by one pass from left to right, which puts a dash into each build number,
that is into the six digits behind each mark. Build numbers do not overlap, because a mark starts
with a letter that neither its other characters nor digits are; and a dash that is put in stands
behind digits, where no mark has its dash. So the pass leaves no build number behind and makes none,
and a second pass has nothing to do. This module proves:

- `startsWithJoinedDigits_iff`: what the pass looks for;
- `normalizeQualifier_joined` and `normalizeQualifier_cons`: what it does at a build number and at
  any other character;
- `prefix_of_prefix_normalizeQualifier`: what it cannot have made;
- `not_holdsJoined_normalizeQualifier`: it leaves no build number;
- `normalizeQualifier_eq_iff`: it puts a dash into each build number (`Separates`);
- `normalizeQualifier_stable`: what normalizing means for qualifiers, and for the order of versions.
-/

namespace BundleWiring

/-! ### Build numbers -/

/-- A text of some number of ASCII digits. -/
structure AreDigits (n : Nat) (s : List Char) : Prop where
  /-- There are so many characters. -/
  length_eq : s.length = n
  /-- Each of them is a digit. -/
  isDigit : ∀ c ∈ s, c.isDigit = true

/-- A text starts with the mark and six digits. -/
def StartsJoined (s : List Char) : Prop :=
  ∃ digits, AreDigits 6 digits ∧ buildMark ++ digits <+: s

/-- The mark and six digits occur somewhere in a text. -/
def HoldsJoined (s : List Char) : Prop :=
  ∃ digits, AreDigits 6 digits ∧ buildMark ++ digits <:+: s

/-- The first text becomes the second one when a dash is put behind the third of the six digits of
each build number. The build numbers are found from left to right: none of them starts before the
first one, and the next ones are looked for behind it. -/
inductive Separates : List Char → List Char → Prop
  /-- A text without build numbers stays as it is. -/
  | rest {s : List Char} : ¬ HoldsJoined s → Separates s s
  /-- The first build number gets a dash. -/
  | first {gap high low s t : List Char} : AreDigits 3 high → AreDigits 3 low →
    (∀ pre post, gap = pre ++ post → post ≠ [] →
      ¬ StartsJoined (post ++ buildMark ++ high ++ low ++ s)) →
    Separates s t →
      Separates (gap ++ buildMark ++ high ++ low ++ s) (gap ++ buildMark ++ high ++ '-' :: low ++ t)

variable {c : Char} {s t p high low digits : List Char}

/-- What it takes to be a number of digits can be computed. -/
theorem areDigits_iff {n : Nat} : AreDigits n s ↔ s.length = n ∧ s.all Char.isDigit = true := by
  rw [List.all_eq_true]
  exact ⟨fun h => ⟨h.length_eq, h.isDigit⟩, fun h => ⟨h.1, h.2⟩⟩

instance (n : Nat) (s : List Char) : Decidable (AreDigits n s) :=
  decidable_of_iff _ areDigits_iff.symm

/-- Digits behind digits are as many as both together. -/
theorem AreDigits.append {m n : Nat} (hhigh : AreDigits m high) (hlow : AreDigits n low) :
    AreDigits (m + n) (high ++ low) where
  length_eq := by rw [List.length_append, hhigh.length_eq, hlow.length_eq]
  isDigit c hc := (List.mem_append.mp hc).elim (hhigh.isDigit c) (hlow.isDigit c)

/-- Six digits are two times three. -/
theorem AreDigits.exists_eq_append (h : AreDigits 6 digits) :
    ∃ high low, AreDigits 3 high ∧ AreDigits 3 low ∧ digits = high ++ low := by
  refine ⟨digits.take 3, digits.drop 3, ⟨?_, fun c hc => h.isDigit c (List.mem_of_mem_take hc)⟩,
    ⟨?_, fun c hc => h.isDigit c (List.mem_of_mem_drop hc)⟩, (List.take_append_drop 3 digits).symm⟩
  · rw [List.length_take, h.length_eq]
    rfl
  · rw [List.length_drop, h.length_eq]

/-- The mark and six digits in front are found. -/
theorem startsWithJoinedDigits_iff : startsWithJoinedDigits s = true ↔ StartsJoined s := by
  unfold startsWithJoinedDigits StartsJoined
  simp only [Bool.and_eq_true, beq_iff_eq, List.all_eq_true, List.isPrefixOf_iff_prefix]
  constructor
  · rintro ⟨⟨⟨rest, rfl⟩, hlength⟩, hdigits⟩
    rw [List.drop_left] at hlength hdigits
    have hsix : rest.take 6 <+: rest := List.take_prefix 6 rest
    exact ⟨rest.take 6, ⟨hlength, hdigits⟩, (List.prefix_append_right_inj buildMark).mpr hsix⟩
  · rintro ⟨digits, hdigits, rest, rfl⟩
    rw [List.append_assoc, List.drop_left, ← hdigits.length_eq, List.take_left]
    exact ⟨⟨List.prefix_append _ _, rfl⟩, hdigits.isDigit⟩

/-- The six digits behind the mark are three and three. -/
theorem StartsJoined.exists_eq_append (h : StartsJoined s) : ∃ high low rest,
    AreDigits 3 high ∧ AreDigits 3 low ∧ s = buildMark ++ high ++ low ++ rest := by
  obtain ⟨digits, hdigits, rest, rfl⟩ := h
  obtain ⟨high, low, hhigh, hlow, rfl⟩ := hdigits.exists_eq_append
  exact ⟨high, low, rest, hhigh, hlow, by simp only [List.append_assoc]⟩

/-- The mark, three digits and three more start a text with the mark and six digits. -/
theorem startsJoined_joined (hhigh : AreDigits 3 high) (hlow : AreDigits 3 low) (s : List Char) :
    StartsJoined (buildMark ++ high ++ low ++ s) :=
  ⟨high ++ low, hhigh.append hlow, s, by simp only [List.append_assoc]⟩

/-- The mark and six digits occur in front or behind the first character. -/
theorem holdsJoined_cons_iff : HoldsJoined (c :: s) ↔ StartsJoined (c :: s) ∨ HoldsJoined s := by
  unfold HoldsJoined StartsJoined
  simp only [List.infix_cons_iff, and_or_left, exists_or]

/-- A text holds a build number if one of its tails starts with one. -/
theorem any_tails_startsWithJoinedDigits_iff :
    s.tails.any startsWithJoinedDigits = true ↔ HoldsJoined s := by
  simp only [List.any_eq_true, List.mem_tails, startsWithJoinedDigits_iff]
  constructor
  · rintro ⟨rest, hrest, digits, hdigits, hstarts⟩
    exact ⟨digits, hdigits, hstarts.isInfix.trans hrest.isInfix⟩
  · rintro ⟨digits, hdigits, pre, post, rfl⟩
    exact ⟨buildMark ++ digits ++ post, ⟨pre, by simp⟩, digits, hdigits, List.prefix_append _ _⟩

instance : DecidablePred HoldsJoined := fun _ =>
  decidable_of_iff _ any_tails_startsWithJoinedDigits_iff

/-- A mark starts with a letter that is nowhere else in a build number. -/
theorem notMem_tail_buildMark (hdigits : ∀ c ∈ digits, c.isDigit = true) :
    'r' ∉ buildMark.tail ++ digits := by
  rw [List.mem_append, not_or]
  exact ⟨by decide, fun hr => absurd (hdigits 'r' hr) (by decide)⟩

/-- The mark starts with an r. -/
theorem StartsJoined.head_eq (h : StartsJoined (c :: s)) : c = 'r' := by
  obtain ⟨digits, -, rest, hrest⟩ := h
  exact (List.cons.inj hrest).1.symm

/-- No build number starts where there is no mark. -/
theorem holdsJoined_of_append (hp : 'r' ∉ p) (h : HoldsJoined (p ++ s)) : HoldsJoined s := by
  induction p with
  | nil => exact h
  | cons c p ih =>
    obtain ⟨hc, hp⟩ := not_or.mp (List.mem_cons.not.mp hp)
    rcases holdsJoined_cons_iff.mp h with hstarts | hholds
    · exact absurd hstarts.head_eq.symm hc
    · exact ih hp hholds

/-! ### One pass over a qualifier -/

/-- At a build number, a dash is put in, and the pass goes on behind it. -/
theorem normalizeQualifier_joined (hhigh : AreDigits 3 high) (hlow : AreDigits 3 low)
    (s : List Char) : normalizeQualifier (buildMark ++ high ++ low ++ s) =
      buildMark ++ high ++ '-' :: low ++ normalizeQualifier s := by
  have hstarts := startsWithJoinedDigits_iff.mpr (startsJoined_joined hhigh hlow s)
  have hmark : buildMark ++ high ++ low ++ s = 'r' :: (buildMark.tail ++ high ++ low ++ s) := rfl
  have hhead : buildMark.length + 3 = (buildMark ++ high).length := by
    rw [List.length_append, hhigh.length_eq]
  have hall : buildMark.length + 6 = (buildMark ++ high ++ low).length := by
    rw [List.length_append, List.length_append, hhigh.length_eq, hlow.length_eq]
  rw [hmark, normalizeQualifier, ← hmark, if_pos hstarts, hall, List.drop_left, hhead,
    List.append_assoc (buildMark ++ high), List.take_left, List.drop_left, ← hlow.length_eq,
    List.take_left]

/-- Any other character stays. -/
theorem normalizeQualifier_cons (h : ¬ StartsJoined (c :: s)) :
    normalizeQualifier (c :: s) = c :: normalizeQualifier s := by
  rw [normalizeQualifier, if_neg (mt startsWithJoinedDigits_iff.mp h)]

/-- What holds of the empty text, and of a text if it holds of what the pass goes on with, holds of
every text. -/
@[elab_as_elim]
theorem normalizeQualifier_induction {P : List Char → Prop} (nil : P [])
    (joined : ∀ high low s, AreDigits 3 high → AreDigits 3 low → P s →
      P (buildMark ++ high ++ low ++ s))
    (cons : ∀ c s, ¬ StartsJoined (c :: s) → P s → P (c :: s)) (s : List Char) : P s := by
  induction s using normalizeQualifier.induct with
  | case1 => exact nil
  | case2 c t hstarts ih =>
    obtain ⟨high, low, rest, hhigh, hlow, hs⟩ :=
      (startsWithJoinedDigits_iff.mp hstarts).exists_eq_append
    -- The mark and six digits are as long as what is skipped.
    have hall : buildMark.length + 6 = (buildMark ++ high ++ low).length := by
      rw [List.length_append, List.length_append, hhigh.length_eq, hlow.length_eq]
    rw [hs, hall, List.drop_left] at ih
    exact hs ▸ joined high low rest hhigh hlow ih
  | case3 c t hstarts ih => exact cons c t (mt startsWithJoinedDigits_iff.mpr hstarts) ih

/-- A text without build numbers stays as it is. -/
theorem normalizeQualifier_eq_self (h : ¬ HoldsJoined s) : normalizeQualifier s = s := by
  induction s with
  | nil => rw [normalizeQualifier]
  | cons c s ih =>
    obtain ⟨hstarts, hholds⟩ := not_or.mp (holdsJoined_cons_iff.not.mp h)
    rw [normalizeQualifier_cons hstarts, ih hholds]

/-- What a normalized text starts with was there before, as far as no mark begins in it. -/
theorem prefix_of_prefix_normalizeQualifier (hp : 'r' ∉ p) (h : p <+: normalizeQualifier s) :
    p <+: s := by
  induction s using normalizeQualifier_induction generalizing p with
  | nil => rwa [normalizeQualifier] at h
  | joined high low s hhigh hlow ih =>
    rw [normalizeQualifier_joined hhigh hlow] at h
    cases p with
    | nil => exact List.nil_prefix
    -- A mark begins here, so there is no more than the empty text to start with.
    | cons c p =>
      obtain ⟨rfl, -⟩ := List.cons_prefix_cons.mp h
      exact absurd (List.mem_cons_self ..) hp
  | cons c s hstarts ih =>
    rw [normalizeQualifier_cons hstarts] at h
    cases p with
    | nil => exact List.nil_prefix
    | cons d p =>
      obtain ⟨rfl, hrest⟩ := List.cons_prefix_cons.mp h
      exact List.cons_prefix_cons.mpr ⟨rfl, ih (mt (List.mem_cons_of_mem _) hp) hrest⟩

/-- Behind three digits and a dash there are no six digits. -/
theorem not_startsJoined_separated (hhigh : AreDigits 3 high) (s : List Char) :
    ¬ StartsJoined (buildMark ++ high ++ '-' :: s) := by
  rintro ⟨digits, hdigits, h⟩
  rw [List.append_assoc, List.prefix_append_right_inj] at h
  -- The dash comes right behind the three digits, so it would be the fourth of the six.
  have hdash : high ++ ['-'] <+: digits := by
    refine List.prefix_of_prefix_length_le ⟨s, by simp⟩ h ?_
    rw [List.length_append, hhigh.length_eq, hdigits.length_eq]
    decide
  exact absurd (hdigits.isDigit '-' (hdash.subset (by simp))) (by decide)

/-- A normalized text holds no build number. -/
theorem not_holdsJoined_normalizeQualifier (s : List Char) :
    ¬ HoldsJoined (normalizeQualifier s) := by
  induction s using normalizeQualifier_induction with
  | nil =>
    rw [normalizeQualifier]
    decide
  | joined high low s hhigh hlow ih =>
    intro h
    rw [normalizeQualifier_joined hhigh hlow] at h
    have hr : 'r' ∉ buildMark.tail ++ high ++ '-' :: low := by
      rw [List.mem_append, List.mem_cons, not_or, not_or]
      exact ⟨notMem_tail_buildMark hhigh.isDigit, by decide,
        fun hr => absurd (hlow.isDigit 'r' hr) (by decide)⟩
    have hsplit : buildMark ++ high ++ '-' :: low ++ normalizeQualifier s =
        'r' :: ((buildMark.tail ++ high ++ '-' :: low) ++ normalizeQualifier s) := rfl
    rw [hsplit] at h
    -- Only the mark itself could start a build number here, and the dash prevents that.
    rcases holdsJoined_cons_iff.mp h with hstarts | hholds
    · rw [← hsplit, List.append_assoc] at hstarts
      exact not_startsJoined_separated hhigh _ hstarts
    · exact ih (holdsJoined_of_append hr hholds)
  | cons c s hstarts ih =>
    rw [normalizeQualifier_cons hstarts]
    intro h
    rcases holdsJoined_cons_iff.mp h with ⟨digits, hdigits, hmark⟩ | hholds
    · -- What is behind the first letter of this mark was there before, and so was the build number.
      obtain ⟨rfl, htail⟩ := List.cons_prefix_cons.mp hmark
      have hbefore := prefix_of_prefix_normalizeQualifier
        (notMem_tail_buildMark hdigits.isDigit) htail
      exact hstarts ⟨digits, hdigits, List.cons_prefix_cons.mpr ⟨rfl, hbefore⟩⟩
    · exact ih hholds

/-- Nothing is in front of a build number that a text starts with. -/
theorem Separates.joined (hhigh : AreDigits 3 high) (hlow : AreDigits 3 low)
    (h : Separates s t) :
    Separates (buildMark ++ high ++ low ++ s) (buildMark ++ high ++ '-' :: low ++ t) :=
  @Separates.first [] high low s t hhigh hlow
    (fun _ _ hgap hpost => absurd (List.append_eq_nil_iff.mp hgap.symm).2 hpost) h

/-- A character at which no build number starts is in front of the first one. -/
theorem Separates.cons (hstarts : ¬ StartsJoined (c :: s)) (h : Separates s t) :
    Separates (c :: s) (c :: t) := by
  cases h with
  | rest hholds => exact .rest (holdsJoined_cons_iff.not.mpr (not_or.mpr ⟨hstarts, hholds⟩))
  | @first gap high low s t hhigh hlow hgap hrest =>
    refine @Separates.first (c :: gap) _ _ _ _ hhigh hlow (fun pre post heq hpost => ?_) hrest
    cases pre with
    | nil =>
      obtain rfl : c :: gap = post := heq
      exact hstarts
    | cons d pre => exact hgap pre post (List.cons.inj heq).2 hpost

/-- The pass puts a dash into each build number and changes nothing else. -/
theorem separates_normalizeQualifier (s : List Char) : Separates s (normalizeQualifier s) := by
  induction s using normalizeQualifier_induction with
  | nil =>
    rw [normalizeQualifier]
    exact .rest (by decide)
  | joined high low s hhigh hlow ih =>
    rw [normalizeQualifier_joined hhigh hlow]
    exact ih.joined hhigh hlow
  | cons c s hstarts ih =>
    rw [normalizeQualifier_cons hstarts]
    exact ih.cons hstarts

/-- The pass goes over a gap in front of a build number without a change. -/
theorem normalizeQualifier_gap {gap : List Char}
    (h : ∀ pre post, gap = pre ++ post → post ≠ [] → ¬ StartsJoined (post ++ s)) :
    normalizeQualifier (gap ++ s) = gap ++ normalizeQualifier s := by
  induction gap with
  | nil => rfl
  | cons c gap ih =>
    have hstarts : ¬ StartsJoined (c :: (gap ++ s)) := h [] (c :: gap) rfl (List.cons_ne_nil c gap)
    rw [List.cons_append, normalizeQualifier_cons hstarts, List.cons_append,
      ih fun pre post hgap => h (c :: pre) post (by rw [hgap, List.cons_append])]

/-- The text in which each build number has its dash is the normalized one. -/
theorem normalizeQualifier_eq_iff : normalizeQualifier s = t ↔ Separates s t := by
  refine ⟨fun h => h ▸ separates_normalizeQualifier s, fun h => ?_⟩
  induction h with
  | rest hholds => exact normalizeQualifier_eq_self hholds
  -- The pass goes over the gap, puts in the dash and does the rest by induction.
  | @first gap high low s t hhigh hlow hgap _ ih =>
    simp only [List.append_assoc] at hgap ⊢
    rw [normalizeQualifier_gap hgap]
    have hjoined := normalizeQualifier_joined hhigh hlow s
    simp only [List.append_assoc] at hjoined
    rw [hjoined, ih]

/-- A normal qualifier stays as it is. -/
theorem normalizeQualifier_normalizeQualifier (s : List Char) :
    normalizeQualifier (normalizeQualifier s) = normalizeQualifier s :=
  normalizeQualifier_eq_self (not_holdsJoined_normalizeQualifier s)

/-- Only dashes are new in a normalized text. -/
theorem mem_of_mem_normalizeQualifier (hc : c ∈ normalizeQualifier s) : c ∈ s ∨ c = '-' := by
  induction s using normalizeQualifier_induction with
  | nil => exact .inl (normalizeQualifier.eq_1 ▸ hc)
  | joined high low s hhigh hlow ih =>
    rw [normalizeQualifier_joined hhigh hlow] at hc
    simp only [List.mem_append, List.mem_cons] at hc ⊢
    grind
  | cons d s hstarts ih =>
    rw [normalizeQualifier_cons hstarts] at hc
    simp only [List.mem_cons] at hc ⊢
    grind

/-! ### The order of versions by normalized qualifiers -/

namespace Version

variable {v w : Version}

/-- The version with its qualifier in the form that providers are compared by. -/
def normalized (v : Version) : Version where
  major := v.major
  minor := v.minor
  micro := v.micro
  qualifier := v.normalQualifier
  qualifier_valid := by
    rw [normalQualifier, String.toList_ofList, List.all_eq_true]
    intro c hc
    rcases mem_of_mem_normalizeQualifier hc with hmem | rfl
    · exact List.all_eq_true.mp v.qualifier_valid c hmem
    · decide

/-- The order of versions by their numbers only. -/
def compareNumbers : Version → Version → Ordering :=
  compareLex (compareOn major) <| compareLex (compareOn minor) (compareOn micro)

/-- With its normal qualifier a version is the normal one. -/
theorem withQualifier?_normalQualifier (v : Version) :
    v.withQualifier? v.normalQualifier = some v.normalized :=
  dif_pos v.normalized.qualifier_valid

/-- Versions are compared by their numbers and then by their qualifiers. -/
theorem compare_eq_then : compare v w =
    (compareNumbers v w).then (compare v.qualifier w.qualifier) := by
  show compareLex (compareOn major) (compareLex (compareOn minor)
    (compareLex (compareOn micro) (compareOn qualifier))) v w = _
  simp only [compareNumbers, compareLex, compareOn, Ordering.then_assoc]

/-- Normal versions are compared by their numbers and then by their normal qualifiers. -/
theorem compareNormalized_eq_then : compareNormalized v w =
    (compareNumbers v w).then (compare v.normalQualifier w.normalQualifier) := by
  simp only [compareNormalized, compareNumbers, compareLex, compareOn, Ordering.then_assoc]

/-- The numbers tie only if they are the same. -/
theorem compareNumbers_eq_eq_iff : compareNumbers v w = .eq ↔
    v.major = w.major ∧ v.minor = w.minor ∧ v.micro = w.micro := by
  simp only [compareNumbers, compareLex, compareOn, Ordering.then_eq_eq,
    Std.LawfulEqCmp.compare_eq_iff_eq]

/-- A normal version has its normal qualifier. -/
theorem normalQualifier_normalized (v : Version) :
    v.normalized.normalQualifier = v.normalQualifier := by
  show String.ofList (normalizeQualifier v.normalQualifier.toList) = _
  rw [normalQualifier, String.toList_ofList, normalizeQualifier_normalizeQualifier]

/-- A version ties with its normalized form. -/
theorem compareNormalized_normalized (v : Version) :
    compareNormalized v v.normalized = .eq := by
  have hnumbers : compareNumbers v v.normalized = .eq :=
    compareNumbers_eq_eq_iff.mpr ⟨rfl, rfl, rfl⟩
  rw [compareNormalized_eq_then, hnumbers, normalQualifier_normalized,
    Std.compare_self]
  rfl

/-- A qualifier without the mark and six digits is normal. -/
theorem normalQualifier_eq_self (hv : ¬ HoldsJoined v.qualifier.toList) :
    v.normalQualifier = v.qualifier := by
  rw [normalQualifier, normalizeQualifier_eq_self hv, String.ofList_toList]

/-- Without build numbers to normalize, providers are compared by the order of versions. -/
theorem compareNormalized_eq_compare (hv : ¬ HoldsJoined v.qualifier.toList)
    (hw : ¬ HoldsJoined w.qualifier.toList) : compareNormalized v w = compare v w := by
  rw [compareNormalized_eq_then, compare_eq_then, normalQualifier_eq_self hv,
    normalQualifier_eq_self hw]

/-- Numbers that differ decide, whatever the qualifiers are. -/
theorem compare_eq_compareNumbers
    (h : v.major ≠ w.major ∨ v.minor ≠ w.minor ∨ v.micro ≠ w.micro) :
    compareNumbers v w ≠ .eq ∧ compareNormalized v w = compareNumbers v w ∧
      compare v w = compareNumbers v w := by
  have hne : compareNumbers v w ≠ .eq := by
    rw [Ne, compareNumbers_eq_eq_iff]
    tauto
  rw [compareNormalized_eq_then, compare_eq_then]
  cases hnumbers : compareNumbers v w with
  | eq => exact absurd hnumbers hne
  | lt | gt => exact ⟨nofun, rfl, rfl⟩

end Version

/-- Normalizing puts a dash into each build number of a text, from left to right, and leaves none
behind, so doing it again changes nothing. The normalized qualifier of a version is a qualifier, and
the version ties with the one that has it. Where there is nothing to normalize, versions are
compared as they are, and numbers that differ decide in any case. -/
theorem normalizeQualifier_stable :
    (∀ s t, normalizeQualifier s = t ↔ Separates s t) ∧
    (∀ s, ¬ HoldsJoined (normalizeQualifier s)) ∧
    (∀ s, normalizeQualifier (normalizeQualifier s) = normalizeQualifier s) ∧
    (∀ v : Version, v.withQualifier? v.normalQualifier = some v.normalized ∧
      Version.compareNormalized v v.normalized = .eq) ∧
    ∀ v w : Version,
      (¬ HoldsJoined v.qualifier.toList → ¬ HoldsJoined w.qualifier.toList →
        Version.compareNormalized v w = compare v w) ∧
      (v.major ≠ w.major ∨ v.minor ≠ w.minor ∨ v.micro ≠ w.micro →
        Version.compareNumbers v w ≠ .eq ∧
        Version.compareNormalized v w = Version.compareNumbers v w ∧
        compare v w = Version.compareNumbers v w) :=
  ⟨fun _ _ => normalizeQualifier_eq_iff, not_holdsJoined_normalizeQualifier,
    normalizeQualifier_normalizeQualifier,
    fun v => ⟨v.withQualifier?_normalQualifier, v.compareNormalized_normalized⟩,
    fun _ _ => ⟨Version.compareNormalized_eq_compare, Version.compare_eq_compareNumbers⟩⟩

/-- Two build numbers side by side, the second one with a digit behind it, and the comparison of a
version that has them with a later one; and two versions with no build numbers. -/
theorem compareNormalized_sideBySide :
    ∃ joined later general service : Version,
      Version.parse? "1.9.0.redhat-001002redhat-0030045" = some joined ∧
      Version.parse? "1.10" = some later ∧
      Version.parse? "1.9.0.GA" = some general ∧ Version.parse? "1.9.0.SP1" = some service ∧
      joined.normalQualifier = "redhat-001-002redhat-003-0045" ∧
      Version.compareNormalized joined joined.normalized = .eq ∧
      Version.compareNormalized joined later = .lt ∧
      Version.compareNormalized general service = .lt := by
  obtain ⟨hnormal, -, -, hties, hcompare⟩ := normalizeQualifier_stable
  let joined : Version := ⟨1, 9, 0, "redhat-001002redhat-0030045", by decide⟩
  let later : Version := .ofNumbers 1 10 0
  let general : Version := ⟨1, 9, 0, "GA", by decide⟩
  let service : Version := ⟨1, 9, 0, "SP1", by decide⟩
  -- Each mark has six digits; a seventh one is left where it is.
  have hfirst : AreDigits 3 "001".toList ∧ AreDigits 3 "002".toList := by decide
  have hsecond : AreDigits 3 "003".toList ∧ AreDigits 3 "004".toList := by decide
  have hrest : Separates "5".toList "5".toList := .rest (by decide)
  have hseparates : Separates "redhat-001002redhat-0030045".toList
      "redhat-001-002redhat-003-0045".toList :=
    .joined hfirst.1 hfirst.2 (.joined hsecond.1 hsecond.2 hrest)
  have hlater : Version.compareNormalized joined later = .lt :=
    ((hcompare joined later).2 (.inr (.inl (by decide)))).2.1.trans (by decide)
  have hservice : Version.compareNormalized general service = .lt :=
    ((hcompare general service).1 (by decide) (by decide)).trans (by decide)
  exact ⟨joined, later, general, service, by decide +kernel, by decide +kernel,
    by decide +kernel, by decide +kernel,
    congrArg String.ofList ((hnormal _ _).mpr hseparates), (hties joined).2, hlater, hservice⟩

end BundleWiring
