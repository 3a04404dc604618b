import BundleWiring.Proofs.Equality
import BundleWiring.Proofs.Version.Text
import BundleWiring.Requirement

/-!
# What Filters for Given Attributes Ask For

A filter for given attributes holds if the conditions for each attribute do. On a version, the
conditions for a range are membership in it. An excluded end of a range is a negation, which names
no attribute and also holds of attributes without the name; so a range that includes none of its
ends is the exception in both main results:

- `accepts_ofAttributes_range_iff`: the filter for a range accepts the versions in the range, and a
  missing version if the range includes none of its ends;
- `namedBy_ofAttributes_iff`: the filter for some attributes names those of them that are not such
  ranges, so it names the mandatory attributes of a capability if they are all among these.
-/

namespace BundleWiring

/-- Whether a range includes one of its ends. -/
def VersionRange.includesEnd (r : VersionRange) : Bool :=
  r.floorIncluded || (r.ceiling.isSome && r.ceilingIncluded)

/-- The versions between two versions, without these two themselves. -/
def VersionRange.between (low high : Version) : VersionRange :=
  { floor := low, floorIncluded := false, ceiling := some high, ceilingIncluded := false }

/-- Whether one of the conditions for a value is not a negation. -/
def AttrValue.isAsserted : AttrValue → Bool
  | .range r => r.includesEnd
  | _ => true

namespace Filter

variable {m attributes : Attributes} {name : String} {r : VersionRange} {v : Version}

/-! ### Conjunctions -/

/-- Several filters hold together if each of them holds. -/
theorem acceptsAll_eq_all (m : Attributes) (fs : List Filter) :
    acceptsAll m fs = fs.all (·.accepts m) := by
  induction fs with
  | nil => rfl
  | cons f fs ih => rw [acceptsAll, ih, List.all_cons]

/-- Of several filters one holds if any of them holds. -/
theorem acceptsAny_eq_any (m : Attributes) (fs : List Filter) :
    acceptsAny m fs = fs.any (·.accepts m) := by
  induction fs with
  | nil => rfl
  | cons f fs ih => rw [acceptsAny, ih, List.any_cons]

/-- A conjunction holds if all of its filters hold, also if it is a single filter. -/
theorem accepts_conjunction (m : Attributes) (fs : List Filter) :
    (conjunction fs).accepts m = acceptsAll m fs := by
  unfold conjunction
  split
  · rfl
  · rw [acceptsAll_eq_all, List.all_cons, List.all_nil, Bool.and_true]
  · rw [accepts]

/-- The names on all ways through several filters are those on all ways through each of them. -/
theorem mem_conjunctNamesAll {fs : List Filter} :
    name ∈ conjunctNamesAll fs ↔ ∃ f ∈ fs, name ∈ f.conjunctNames := by
  induction fs with
  | nil => simp [conjunctNamesAll]
  | cons f fs ih => simp [conjunctNamesAll, ih]

/-- A conjunction names what its filters name, also if it is a single filter. -/
theorem conjunctNames_conjunction (fs : List Filter) :
    (conjunction fs).conjunctNames = conjunctNamesAll fs := by
  unfold conjunction
  split
  · rfl
  · rw [conjunctNamesAll, conjunctNamesAll, List.append_nil]
  · rw [conjunctNames]

/-! ### Conditions for one attribute -/

/-- A version compares with a written version as it compares with the version. -/
theorem accepts_comparison_version (hm : m.get? name = some (.version v)) (op : Comparison)
    (w : Version) : (comparison name op w.text).accepts m = op.holds (compare v w) := by
  rw [accepts, hm, Option.any_some, AttrValue.satisfies, Version.parse?_text, Option.any_some]

/-- The conditions for a range hold of the versions in the range. -/
theorem acceptsAll_ofRange_version (hm : m.get? name = some (.version v)) :
    acceptsAll m (ofRange name r) = r.includes v := by
  obtain ⟨floor, floorIncluded, ceiling, ceilingIncluded⟩ := r
  -- A comparison has the version on its left, membership in a range has the floor there.
  have hfloor : compare floor v = (compare v floor).swap := Std.OrientedCmp.eq_swap
  rw [acceptsAll_eq_all, ofRange, VersionRange.includes, List.all_cons]
  congr 1
  · rw [hfloor]
    cases floorIncluded
    -- the excluded floor: not at most the floor is above it
    · show (not (comparison name .lte floor.text)).accepts m = _
      rw [accepts, accepts_comparison_version hm]
      cases compare v floor <;> rfl
    -- the included floor: at least the floor
    · show (comparison name .gte floor.text).accepts m = _
      rw [accepts_comparison_version hm]
      cases compare v floor <;> rfl
  · cases ceiling with
    | none => rfl
    | some ceiling =>
      rw [Option.map_some, Option.toList_some, List.all_cons, List.all_nil, Bool.and_true]
      cases ceilingIncluded
      -- the excluded ceiling: not at least the ceiling is below it
      · show (not (comparison name .gte ceiling.text)).accepts m = _
        rw [accepts, accepts_comparison_version hm]
        cases h : compare v ceiling <;> simp [h, Comparison.holds]
      -- the included ceiling: at most the ceiling
      · show (comparison name .lte ceiling.text).accepts m = _
        rw [accepts_comparison_version hm]
        rfl

/-- Without the attribute only negations hold, so the conditions for a range do if they are all
negations. -/
theorem acceptsAll_ofRange_of_get?_eq_none (hm : m.get? name = none) :
    acceptsAll m (ofRange name r) = !r.includesEnd := by
  obtain ⟨floor, floorIncluded, ceiling, ceilingIncluded⟩ := r
  cases floorIncluded <;> cases ceiling <;> cases ceilingIncluded <;>
    simp [acceptsAll_eq_all, ofRange, VersionRange.includesEnd, accepts, hm]

/-- A text without stars and backslashes, which stands for itself. -/
def isPlain (s : String) : Bool :=
  s.toList.all fun c => c != '*' && c != '\\'

/-- A text without stars and backslashes stands for itself. -/
theorem splitStars_signs_of_all {s : List Char}
    (h : s.all (fun c => c != '*' && c != '\\') = true) : splitStars (signs s) = (s, []) := by
  induction s with
  | nil => rfl
  | cons c s ih =>
    rw [List.all_cons, Bool.and_eq_true, Bool.and_eq_true, bne_iff_ne, bne_iff_ne] at h
    obtain ⟨⟨hstar, hescape⟩, hs⟩ := h
    rw [signs_cons_of_ne hstar hescape, splitStars, ih hs]
    rfl

/-- A plain text is one piece. -/
theorem piecesOf_of_isPlain {s : String} (hs : isPlain s = true) : piecesOf s = [s] := by
  rw [piecesOf, pieces, splitStars_signs_of_all hs]
  simp

/-- A plain string is looked for by an equality. -/
theorem ofAttribute_str {s : String} (hs : isPlain s = true) :
    ofAttribute name (.str s) = [eq name s] := by
  show [ofPieces name (piecesOf (String.ofList s.toList))] = _
  rw [String.ofList_toList, piecesOf_of_isPlain hs]
  rfl

/-- An equality with a string accepts this string only. -/
theorem accepts_eq_iff {s t : String} (hm : m.get? name = some (.str t)) :
    (eq name s).accepts m = true ↔ s = t := by
  have hsatisfies : (AttrValue.str t).satisfies .eq s = true ↔ t = s := by
    simp [AttrValue.satisfies, Comparison.holdsText, Comparison.holds]
  rw [eq, accepts, hm, Option.any_some, hsatisfies]
  exact eq_comm

/-- The conditions for a plain text hold of that text. -/
theorem acceptsAll_ofAttribute_str_iff {s t : String} (hs : isPlain s = true)
    (hm : m.get? name = some (.str t)) :
    acceptsAll m (ofAttribute name (.str s)) = true ↔ s = t := by
  rw [ofAttribute_str hs, acceptsAll_eq_all, List.all_cons, List.all_nil, Bool.and_true]
  exact accepts_eq_iff hm

/-- The condition for some pieces names its attribute. -/
theorem conjunctNames_ofPieces (name : String) (ps : List String) :
    (ofPieces name ps).conjunctNames = [name] := by
  unfold ofPieces
  split <;> rfl

/-- The conditions for an attribute name it, unless all of them are negations. -/
theorem mem_conjunctNamesAll_ofAttribute {other : String} (value : AttrValue) :
    other ∈ conjunctNamesAll (ofAttribute name value) ↔
      other = name ∧ value.isAsserted = true := by
  unfold ofAttribute
  split
  next r =>
    -- An included end is a comparison, which names the attribute; an excluded one names nothing.
    obtain ⟨floor, floorIncluded, ceiling, ceilingIncluded⟩ := r
    cases floorIncluded <;> cases ceiling <;> cases ceilingIncluded <;>
      simp [ofRange, AttrValue.isAsserted, VersionRange.includesEnd, conjunctNamesAll,
        conjunctNames, subject?]
  next hrange =>
    have hasserted : value.isAsserted = true := by
      unfold AttrValue.isAsserted
      split
      next r => exact absurd rfl (hrange r)
      next => rfl
    simp [conjunctNamesAll, conjunctNames_ofPieces, hasserted]

/-! ### All attributes -/

/-- The filter for no attributes accepts everything. -/
@[simp]
theorem accepts_ofAttributes_empty (m : Attributes) : (ofAttributes .empty).accepts m = true :=
  rfl

/-- A filter for given attributes holds if the conditions for each of them do. -/
theorem accepts_ofAttributes_iff : (ofAttributes attributes).accepts m = true ↔
    ∀ name value, attributes.get? name = some value →
      acceptsAll m (ofAttribute name value) = true := by
  rw [ofAttributes, accepts_conjunction, acceptsAll_eq_all, List.all_flatMap, List.all_eq_true]
  constructor
  · intro h name value hvalue
    rw [acceptsAll_eq_all]
    exact h (name, value) ((Table.mem_entries_iff _).mpr hvalue)
  · intro h e he
    rw [← acceptsAll_eq_all]
    exact h e.1 e.2 ((Table.mem_entries_iff _).mp he)

/-- One more attribute gives its conditions in addition to the others. -/
theorem accepts_ofAttributes_insert (h : attributes.contains name = false) (value : AttrValue) :
    (ofAttributes (attributes.insert name value)).accepts m =
      ((ofAttributes attributes).accepts m && acceptsAll m (ofAttribute name value)) := by
  -- A new name comes last.
  have hentries : (attributes.insert name value).entries =
      attributes.entries ++ [(name, value)] := by
    rw [Table.insert, dif_neg (by rw [h]; decide)]
  simp only [ofAttributes, accepts_conjunction, acceptsAll_eq_all, hentries, List.flatMap_append,
    List.flatMap_singleton, List.all_append]

/-- The filter for a plain name asks for the name. -/
theorem accepts_ofAttributes_name_iff {s t : String} (hs : isPlain s = true)
    (hname : m.get? name = some (.str t)) :
    (ofAttributes (.ofList [(name, .str s)])).accepts m = true ↔ s = t := by
  show (ofAttributes (Table.empty.insert name (.str s))).accepts m = true ↔ s = t
  rw [accepts_ofAttributes_insert rfl, accepts_ofAttributes_empty, Bool.true_and]
  exact acceptsAll_ofAttribute_str_iff hs hname

/-- The filter for a plain name and a range also asks for a version in the range. -/
theorem accepts_ofAttributes_name_range_iff {s t : String} {other : String} (hne : other ≠ name)
    (hs : isPlain s = true) (hname : m.get? name = some (.str t))
    (hother : m.get? other = some (.version v)) :
    (ofAttributes (.ofList [(name, .str s), (other, .range r)])).accepts m = true ↔
      s = t ∧ r.includes v = true := by
  have hnew : (Table.ofList [(name, AttrValue.str s)]).contains other = false := by
    rw [← Table.isSome_get?]
    simp [Table.ofList, Table.get?_insert, hne]
  show (ofAttributes ((Table.ofList [(name, AttrValue.str s)]).insert other (.range r))).accepts m =
    true ↔ _
  rw [accepts_ofAttributes_insert hnew, Bool.and_eq_true, accepts_ofAttributes_name_iff hs hname]
  show s = t ∧ acceptsAll m (ofRange other r) = true ↔ _
  rw [acceptsAll_ofRange_version hother]

/-- The attributes that a filter for attributes names are those whose conditions are not all
negations. -/
theorem mem_conjuncts_ofAttributes : name ∈ (ofAttributes attributes).conjuncts ↔
    ∃ value, attributes.get? name = some value ∧ value.isAsserted = true := by
  rw [conjuncts, Std.ExtTreeSet.mem_ofList, List.contains_iff_mem, ofAttributes,
    conjunctNames_conjunction, mem_conjunctNamesAll]
  constructor
  · rintro ⟨f, hf, hname⟩
    obtain ⟨⟨other, value⟩, he, hf⟩ := List.mem_flatMap.mp hf
    obtain ⟨rfl, hasserted⟩ :=
      (mem_conjunctNamesAll_ofAttribute value).mp (mem_conjunctNamesAll.mpr ⟨f, hf, hname⟩)
    exact ⟨value, (Table.mem_entries_iff _).mp he, hasserted⟩
  · rintro ⟨value, hvalue, hasserted⟩
    obtain ⟨f, hf, hname⟩ :=
      mem_conjunctNamesAll.mp ((mem_conjunctNamesAll_ofAttribute value).mpr ⟨rfl, hasserted⟩)
    exact ⟨f, List.mem_flatMap.mpr ⟨_, (Table.mem_entries_iff _).mpr hvalue, hf⟩, hname⟩

/-! ### Ranges as tests of membership -/

/-- The filter for a range accepts the attributes that hold a version in the range, and those
without a value if the range includes none of its ends. -/
theorem accepts_ofAttributes_range_iff (name : String) (r : VersionRange) (m : Attributes)
    (hm : ∀ value, m.get? name = some value → ∃ v, value = .version v) :
    (ofAttributes (.ofList [(name, .range r)])).accepts m = true ↔
      (∃ v, m.get? name = some (.version v) ∧ r.includes v = true) ∨
        (m.get? name = none ∧ r.includesEnd = false) := by
  have hrange : (ofAttributes (.ofList [(name, .range r)])).accepts m =
      acceptsAll m (ofRange name r) := by
    show (ofAttributes (Table.empty.insert name (.range r))).accepts m = _
    rw [accepts_ofAttributes_insert rfl, accepts_ofAttributes_empty, Bool.true_and, ofAttribute]
  rw [hrange]
  -- Without the attribute the conditions are false, unless all of them are negated.
  cases hvalue : m.get? name with
  | none => simp [acceptsAll_ofRange_of_get?_eq_none hvalue]
  | some value =>
    obtain ⟨v, rfl⟩ := hm value hvalue
    simp [acceptsAll_ofRange_version hvalue]

/-- A version between two others is accepted. -/
theorem accepts_ofAttributes_between :
    (ofAttributes (.ofList
      [("v", .range (.between (.ofNumbers 1 0 0) (.ofNumbers 2 0 0)))])).accepts
        (.ofList [("v", .version (.ofNumbers 1 5 0))]) = true :=
  (accepts_ofAttributes_range_iff "v" _ _ (by simp [Table.ofList, Table.get?_insert])).mpr
    (.inl ⟨.ofNumbers 1 5 0, rfl, by decide⟩)

/-- The second case cannot be left out. -/
theorem not_accepts_ofAttributes_range_iff_includes : ¬ ∀ (name : String) (r : VersionRange)
    (m : Attributes), (∀ value, m.get? name = some value → ∃ v, value = .version v) →
      ((ofAttributes (.ofList [(name, .range r)])).accepts m = true ↔
        ∃ v, m.get? name = some (.version v) ∧ r.includes v = true) := by
  intro h
  -- Neither negated bound is refuted by a capability that has no version at all.
  have hiff := h "v" (.between (.ofNumbers 1 0 0) (.ofNumbers 2 0 0)) .empty (by simp)
  obtain ⟨v, hv, -⟩ := hiff.mp rfl
  cases hv

/-! ### Names of attributes -/

/-- A filter names the mandatory attributes if each of them is among its conjuncts. -/
theorem namedBy_iff {c : Capability} {f : Filter} :
    c.namedBy f = true ↔ ∀ name ∈ c.mandatory, name ∈ f.conjuncts := by
  rw [Capability.namedBy, List.all_eq_true]
  simp only [Std.ExtTreeSet.mem_toList, Std.ExtTreeSet.contains_iff_mem]

/-- A filter for attributes names those of them that are not ranges without their ends, and it names
the mandatory attributes of a capability if they are all among these. -/
theorem namedBy_ofAttributes_iff (attributes : Attributes) :
    (∀ name, name ∈ (ofAttributes attributes).conjuncts ↔
      ∃ value, attributes.get? name = some value ∧ value.isAsserted = true) ∧
    ∀ c : Capability, c.namedBy (ofAttributes attributes) = true ↔
      ∀ name ∈ c.mandatory, ∃ value, attributes.get? name = some value ∧
        value.isAsserted = true := by
  refine ⟨fun name => mem_conjuncts_ofAttributes, fun c => ?_⟩
  rw [namedBy_iff]
  simp only [mem_conjuncts_ofAttributes]

/-- A filter does not name all attributes that it is for. -/
theorem not_mem_conjuncts_ofAttributes_iff_contains : ¬ ∀ (attributes : Attributes) (name : String),
    name ∈ (ofAttributes attributes).conjuncts ↔ attributes.contains name = true := by
  intro h
  -- Both bounds are negated, so nothing is named.
  have hname :=
    (h (.ofList [("v", .range (.between (.ofNumbers 1 0 0) (.ofNumbers 2 0 0)))]) "v").mpr rfl
  obtain ⟨value, hvalue, hasserted⟩ := mem_conjuncts_ofAttributes.mp hname
  obtain rfl : _ = value := Option.some.inj hvalue
  cases hasserted

end Filter

/-! ### Capabilities without mandatory attributes -/

/-- Without names in the directive no attribute is mandatory. -/
theorem Capability.notMem_mandatory {c : Capability} (h : mandatoryNames c.directives = [])
    (name : String) : name ∉ c.mandatory := by
  rw [mandatory, h, Std.ExtTreeSet.mem_ofList]
  exact Bool.false_ne_true

/-- A capability of the namespace without mandatory attributes meets a requirement if it passes the
filter. -/
theorem Requirement.accepts_eq_of_notMem_mandatory {r : Requirement} {c : Capability}
    (hns : r.ns = c.ns) (h : ∀ name, name ∉ c.mandatory) :
    r.accepts c = r.filter.accepts c.attributes := by
  have hnamed : c.namedBy r.filter = true :=
    Filter.namedBy_iff.mpr fun name hname => absurd hname (h name)
  rw [accepts, hns, BEq.rfl, Bool.true_and, hnamed, Bool.and_true]

end BundleWiring
