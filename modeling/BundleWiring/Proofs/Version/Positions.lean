import BundleWiring.Proofs.Version.Syntax

/-!
# Reading Versions and Ranges by Byte Positions

A reader may cut a version at its first three dots, and a range at its first comma and its brackets,
by their byte positions. This needs positions that are in order and never inside a character. They
are, because what is cut at is one byte long, and a closing bracket at the end of a range stands
behind the comma. This module proves:

- `Version.exists_partsAt?_eq`: cutting at no more than some dots leaves the parts between all dots,
  or a part with a dot;
- `Version.parseAt?_eq_some` and `VersionRange.parseAt?_eq_some`: reading by byte positions finds
  every part that it asks for, and reads the same;
- `VersionRange.parse?_iff_denotes`: versions and ranges are read from the texts that denote them
  and from no others, and also by byte positions.
-/

namespace BundleWiring

open Text

namespace Version

variable {first s : List Char} {parts : List (List Char)}

/-- The parts of a text that its first dots separate; it is cut at no more than `more` of them.
There is no answer if it is cut elsewhere than at a boundary of a character. -/
def partsAt? : Nat → String → Option (List String)
  | 0, s => some [s]
  | more + 1, s =>
    match offsetOf? ['.'] s.toList with
    | none => some [s]
    | some dot => do
      let first ← slice? s 0 dot
      let rest ← slice? s (dot + 1) s.utf8ByteSize
      (first :: ·) <$> partsAt? more rest

/-- Reads a version from the parts between its first three dots; a qualifier is all that follows the
third one. There is no answer if the text is cut elsewhere than at a boundary of a character. -/
def parseAt? (text : String) : Option (Option Version) :=
  let s := trimText text
  if s.isEmpty then some (some zero)
  else (fun parts => ofParts? (parts.map String.toList)) <$> partsAt? 3 s

/-! ### Cutting at the first dots -/

/-- A text without a dot is one part. -/
theorem partsAt?_of_notMem (h : '.' ∉ s) (more : Nat) :
    partsAt? more (String.ofList s) = some [String.ofList s] := by
  cases more with
  | zero => rfl
  | succ more => rw [partsAt?, String.toList_ofList, offsetOf?_of_notMem h]

/-- The first part ends before the first dot, and the others are those of what follows the dot. -/
theorem partsAt?_append_dot (h : '.' ∉ first) (more : Nat) (rest : List Char) :
    partsAt? (more + 1) (String.ofList (first ++ '.' :: rest)) =
      (String.ofList first :: ·) <$> partsAt? more (String.ofList rest) := by
  -- The text is cut on both sides of the dot, which is a single byte.
  have hfirst : slice? (String.ofList (first ++ '.' :: rest)) 0 (byteSize first) =
      some (String.ofList first) := by
    have hslice := slice?_ofList [] first ('.' :: rest)
    rwa [byteSize_nil, Nat.zero_add, List.nil_append] at hslice
  have hrest : slice? (String.ofList (first ++ '.' :: rest)) (byteSize first + 1)
      (String.ofList (first ++ '.' :: rest)).utf8ByteSize = some (String.ofList rest) := by
    have hslice := slice?_ofList (first ++ ['.']) rest []
    rw [← byteSize_append, List.append_nil, List.append_assoc] at hslice
    rw [byteSize_append] at hslice
    exact hslice
  rw [partsAt?, String.toList_ofList, offsetOf?_append_cons h]
  simp only [hfirst, hrest]
  rfl

/-- Cutting a text at no more than some dots leaves the parts between all of its dots, or there are
more of these parts and one that is left holds a dot. -/
theorem exists_partsAt?_eq (more : Nat) (s : List Char) :
    ∃ parts, partsAt? more (String.ofList s) = some (parts.map String.ofList) ∧
      (parts = s.splitOn '.' ∨
        more + 1 < (s.splitOn '.').length ∧ ∃ part ∈ parts, '.' ∈ part) := by
  induction more generalizing s with
  | zero =>
    refine ⟨[s], rfl, ?_⟩
    by_cases hdot : '.' ∈ s
    · -- No cut is left, but the first dot would have made two parts.
      refine .inr ⟨?_, s, List.mem_singleton_self s, hdot⟩
      obtain ⟨first, rest, rfl, hfirst⟩ := List.eq_append_cons_of_mem hdot
      rw [List.splitOn_append_cons_self_of_not_mem hfirst, List.length_cons]
      exact Nat.succ_lt_succ (List.length_pos_of_ne_nil (List.splitOn_ne_nil '.' rest))
    · exact .inl (List.splitOn_eq_singleton hdot).symm
  | succ more ih =>
    by_cases hdot : '.' ∈ s
    · -- One cut is made at the first dot, and all others behind it.
      obtain ⟨first, rest, rfl, hfirst⟩ := List.eq_append_cons_of_mem hdot
      obtain ⟨parts, hparts, h⟩ := ih rest
      refine ⟨first :: parts, by rw [partsAt?_append_dot hfirst, hparts]; rfl, ?_⟩
      rw [List.splitOn_append_cons_self_of_not_mem hfirst]
      rcases h with rfl | ⟨hlength, part, hpart, hdot⟩
      · exact .inl rfl
      · refine .inr ⟨?_, part, List.mem_cons_of_mem _ hpart, hdot⟩
        rw [List.length_cons]
        omega
    · refine ⟨[s], partsAt?_of_notMem hdot _, ?_⟩
      exact .inl (List.splitOn_eq_singleton hdot).symm

/-- Parts do not denote a version if one of them holds a dot or if there are too many. -/
theorem ofParts?_eq_none (h : (∃ part ∈ parts, '.' ∈ part) ∨ 4 < parts.length) :
    ofParts? parts = none := by
  rw [Option.eq_none_iff_forall_ne_some]
  intro v hv
  have hparts := ofParts?_eq_some_iff.mp hv
  rcases h with ⟨part, hpart, hdot⟩ | hlength
  · exact hparts.dot_notMem part hpart hdot
  · cases hparts <;> simp at hlength

/-- Reading a version by byte positions finds every part that it asks for, and reads the same. -/
theorem parseAt?_eq_some (t : String) : parseAt? t = some (parse? t) := by
  rw [parseAt?]
  by_cases hnil : trim t.toList = []
  · rw [parse?, trimText, hnil]
    rfl
  · obtain ⟨parts, hparts, h⟩ := exists_partsAt?_eq 3 (trim t.toList)
    have hne : (trimText t).isEmpty = false := by simpa [trimText] using hnil
    have hmap : (parts.map String.ofList).map String.toList = parts := by
      simp [Function.comp_def]
    rw [parse?_eq_ofParts? hnil, hne, if_neg Bool.false_ne_true, trimText, hparts,
      Option.map_eq_map, Option.map_some, hmap]
    rcases h with rfl | ⟨hlength, hdot⟩
    · rfl
    · -- A fourth part with a dot is no qualifier, and five parts are no version.
      rw [ofParts?_eq_none (.inl hdot), ofParts?_eq_none (.inr hlength)]

end Version

namespace VersionRange

/-- Reads a range from the parts between its brackets and its first comma. There is no answer if the
text is cut elsewhere than at a boundary of a character. -/
def parseAt? (text : String) : Option (Option VersionRange) :=
  let s := trimText text
  match offsetOf? [','] s.toList with
  | none => some (atLeast <$> Version.parse? s)
  | some comma =>
    match s.toList.head?.bind opening?, s.toList.getLast?.bind closing? with
    | some floorIncluded, some ceilingIncluded => do
      let low ← slice? s 1 comma
      let high ← slice? s (comma + 1) (s.utf8ByteSize - 1)
      return between? low.toList high.toList floorIncluded ceilingIncluded
    | _, _ => some none

/-- A bracket that opens is one byte long, so the low end starts at the second byte. -/
theorem byteSize_opening (floorIncluded : Bool) : byteSize [opening floorIncluded] = 1 := by
  cases floorIncluded <;> rfl

/-- A bracket that closes is one byte long, so the high end stops before the last byte. -/
theorem byteSize_closing (ceilingIncluded : Bool) : byteSize [closing ceilingIncluded] = 1 := by
  cases ceilingIncluded <;> rfl

/-- The low end stands between the opening bracket and the comma. -/
theorem slice?_low (floorIncluded : Bool) (low post : List Char) :
    slice? (String.ofList (opening floorIncluded :: low ++ post)) 1
      (byteSize (opening floorIncluded :: low)) = some (String.ofList low) := by
  have hslice := slice?_ofList [opening floorIncluded] low post
  rwa [← byteSize_append, byteSize_opening, List.singleton_append] at hslice

/-- The high end stands between the comma and the closing bracket. -/
theorem slice?_high (pre high : List Char) (ceilingIncluded : Bool) :
    slice? (String.ofList (pre ++ ',' :: (high ++ [closing ceilingIncluded]))) (byteSize pre + 1)
      ((String.ofList (pre ++ ',' :: (high ++ [closing ceilingIncluded]))).utf8ByteSize - 1) =
        some (String.ofList high) := by
  have htext : pre ++ ',' :: (high ++ [closing ceilingIncluded]) =
      pre ++ [','] ++ high ++ [closing ceilingIncluded] := by simp
  have hstop : (String.ofList (pre ++ [','] ++ high ++
      [closing ceilingIncluded])).utf8ByteSize - 1 = byteSize (pre ++ [',']) + byteSize high := by
    rw [← byteSize, byteSize_append, byteSize_closing, Nat.add_sub_cancel, byteSize_append]
  have hstart : byteSize pre + 1 = byteSize (pre ++ [',']) := (byteSize_append pre [',']).symm
  rw [htext, hstop, hstart]
  exact slice?_ofList (pre ++ [',']) high [closing ceilingIncluded]

/-- Reading a range by byte positions finds every part that it asks for, and reads the same. -/
theorem parseAt?_eq_some (t : String) : parseAt? t = some (parse? t) := by
  rw [parseAt?, trimText, String.toList_ofList]
  by_cases hcomma : ',' ∈ trim t.toList
  · obtain ⟨low, high, hs, hlow⟩ := List.eq_append_cons_of_mem hcomma
    -- If nothing stands before or behind the comma, the comma is looked at, which is no bracket.
    have hfirst : (low ++ ',' :: high).head?.bind opening? = low.head?.bind opening? := by
      cases low <;> rfl
    have hlast : (low ++ ',' :: high).getLast?.bind closing? = high.getLast?.bind closing? := by
      rw [List.getLast?_append_cons]
      cases high with
      | nil => rfl
      | cons c high => rw [List.getLast?_cons_cons]
    rw [parse?_of_eq_append hlow hs, interval?_eq, hs, offsetOf?_append_cons hlow]
    simp only [hfirst, hlast]
    cases hopening : low.head?.bind opening? with
    | none => rfl
    | some floorIncluded =>
      cases hclosing : high.getLast?.bind closing? with
      | none => rfl
      | some ceilingIncluded =>
        -- Both brackets are there, so the slices are what the text has between them.
        obtain ⟨low, rfl⟩ := head?_bind_opening?_eq_some_iff.mp hopening
        obtain ⟨high, rfl⟩ := getLast?_bind_closing?_eq_some_iff.mp hclosing
        simp only [slice?_low, slice?_high, Option.bind_eq_bind, Option.bind_some, Option.pure_def,
          String.toList_ofList, List.tail_cons, List.dropLast_concat]
  · rw [offsetOf?_of_notMem hcomma, parse?_of_notMem hcomma]
    exact congrArg (fun v => some (atLeast <$> v)) (Version.parse?_trimText t)

/-- Versions and ranges are read from exactly the texts that denote them, as what these denote.
Written versions are read back, and so are exactly the ranges that have a ceiling or hold all
versions from one on. Reading by byte positions never asks for a part that is not there, and reads
the same. -/
theorem parse?_iff_denotes :
    (∀ t v, Version.parse? t = some v ↔ Version.Denotes (trim t.toList) v) ∧
    (∀ v : Version, Version.parse? v.text = some v) ∧
    (∀ t r, parse? t = some r ↔ Denotes (trim t.toList) r) ∧
    (∀ r : VersionRange, parse? r.text = some r ↔ r.ceiling.isSome = true ∨ ∃ v, r = atLeast v) ∧
    ∀ t, Version.parseAt? t = some (Version.parse? t) ∧ parseAt? t = some (parse? t) :=
  ⟨fun _ _ => Version.parse?_eq_some_iff, Version.parse?_text, fun _ _ => parse?_eq_some_iff,
    parse?_text_iff, fun t => ⟨Version.parseAt?_eq_some t, parseAt?_eq_some t⟩⟩

end VersionRange

end BundleWiring
